import Mathlib.Data.Set.Finite.Lattice
import Mathlib.Logic.Function.Basic

/-!
# Program — terminating code over a signature of atomic actions

A signature is a type `Act` of atomic actions together with the type `Ans a` of the answer each
action returns.  A `Prog` is a finite tree of actions: it either returns, or performs one action
and goes on with the answer.  The same program text is then

* run sequentially against a state (`Prog.run`);
* checked for the actions it performs on the way (`Prog.Performs`);
* stepped one action at a time by an interleaving machine, either directly (`Prog.step`) or through
  an `Automaton` of named control points which `Unfolds` to it.
-/

namespace Atomic

universe u

/-- Code that returns `x`, or performs the action `a` and goes on with its answer. -/
inductive Prog (Act : Type) (Ans : Act → Type) (α : Type) : Type where
  | ret (x : α)
  | act (a : Act) (k : Ans a → Prog Act Ans α)

namespace Prog

variable {Act : Type} {Ans : Act → Type} {α β γ : Type} {σ : Type u}

/-! ## Sequencing -/

def bind : Prog Act Ans α → (α → Prog Act Ans β) → Prog Act Ans β
  | .ret x, f => f x
  | .act a k, f => .act a fun r => (k r).bind f

instance : Monad (Prog Act Ans) where
  pure := .ret
  bind := bind

/-- `if (c) p;` -/
def when (c : Prop) [Decidable c] (p : Prog Act Ans Unit) : Prog Act Ans Unit :=
  if c then p else .ret ()

@[simp] theorem pure_eq_ret (x : α) : (pure x : Prog Act Ans α) = .ret x := rfl

@[simp] theorem ret_bind (x : α) (f : α → Prog Act Ans β) : (.ret x >>= f) = f x := rfl

@[simp] theorem act_bind (a : Act) (k : Ans a → Prog Act Ans α) (f : α → Prog Act Ans β) :
    (.act a k >>= f) = .act a fun r => k r >>= f := rfl

@[simp] theorem when_pos {c : Prop} [Decidable c] (h : c) (p : Prog Act Ans Unit) :
    when c p = p :=
  if_pos h

@[simp] theorem when_neg {c : Prop} [Decidable c] (h : ¬ c) (p : Prog Act Ans Unit) :
    when c p = .ret () :=
  if_neg h

theorem bind_assoc (p : Prog Act Ans α) (f : α → Prog Act Ans β) (g : β → Prog Act Ans γ) :
    (p >>= f >>= g) = (p >>= fun x => f x >>= g) := by
  induction p with
  | ret x => rfl
  | act a k ih =>
      simp only [act_bind, ih]

/-! ## Sequential runs -/

/-- Run a program to its end, each action answered by `h`, which also updates the state. -/
def run (h : (a : Act) → σ → Ans a × σ) : Prog Act Ans α → σ → α × σ
  | .ret x, s => (x, s)
  | .act a k, s => run h (k (h a s).1) (h a s).2

/-- Every action performed by the run from `s` satisfies `P`. -/
def Performs (h : (a : Act) → σ → Ans a × σ) (P : Act → Prop) : Prog Act Ans α → σ → Prop
  | .ret _, _ => True
  | .act a k, s => P a ∧ Performs h P (k (h a s).1) (h a s).2

/-- Every action that the program can perform, on any of its branches, satisfies `P`. -/
def Every (P : Act → Prop) : Prog Act Ans α → Prop
  | .ret _ => True
  | .act a k => P a ∧ ∀ r, Every P (k r)

/-- The actions that the run from `s` performs, in order. -/
def trace (h : (a : Act) → σ → Ans a × σ) : Prog Act Ans α → σ → List Act
  | .ret _, _ => []
  | .act a k, s => a :: trace h (k (h a s).1) (h a s).2

section Run

variable {h : (a : Act) → σ → Ans a × σ} {P : Act → Prop}

@[simp] theorem run_ret (x : α) (s : σ) :
    (ret x : Prog Act Ans α).run h s = (x, s) := rfl

@[simp] theorem run_act (a : Act) (k : Ans a → Prog Act Ans α) (s : σ) :
    (act a k).run h s = (k (h a s).1).run h (h a s).2 := rfl

@[simp] theorem run_bind (p : Prog Act Ans α) (f : α → Prog Act Ans β) (s : σ) :
    (p >>= f).run h s = (f (p.run h s).1).run h (p.run h s).2 := by
  induction p generalizing s with
  | ret x => rfl
  | act a k ih =>
      simpa using ih (h a s).1 (h a s).2

@[simp] theorem performs_ret (x : α) (s : σ) :
    (ret x : Prog Act Ans α).Performs h P s := trivial

@[simp] theorem performs_act (a : Act) (k : Ans a → Prog Act Ans α) (s : σ) :
    (act a k).Performs h P s ↔ P a ∧ (k (h a s).1).Performs h P (h a s).2 := Iff.rfl

@[simp] theorem performs_bind (p : Prog Act Ans α) (f : α → Prog Act Ans β) (s : σ) :
    (p >>= f).Performs h P s ↔
      p.Performs h P s ∧ (f (p.run h s).1).Performs h P (p.run h s).2 := by
  induction p generalizing s with
  | ret x => simp
  | act a k ih =>
      simp [ih, and_assoc]

theorem mem_trace_of_performs {p : Prog Act Ans α} {s : σ} (hp : p.Performs h P s) :
    ∀ a ∈ p.trace h s, P a := by
  induction p generalizing s with
  | ret x => simp [trace]
  | act a k ih =>
      intro b hb
      rcases List.mem_cons.1 hb with rfl | hb
      · exact hp.1
      · exact ih _ hp.2 b hb

theorem Every.bind {p : Prog Act Ans α} {f : α → Prog Act Ans β} (hp : p.Every P)
    (hf : ∀ x, (f x).Every P) : (p >>= f).Every P := by
  induction p with
  | ret x => exact hf x
  | act a k ih =>
      exact ⟨hp.1, fun r => ih r (hp.2 r)⟩

theorem Every.when {c : Prop} [Decidable c] {p : Prog Act Ans Unit} (hp : p.Every P) :
    (when c p).Every P := by
  unfold Prog.when
  split
  · exact hp
  · trivial

/-- Several programs, one of which has gone on. -/
theorem every_update {ι : Type*} [DecidableEq ι] {δ : ι → Type} {p : (i : ι) → Prog Act Ans (δ i)}
    {i : ι} {q : Prog Act Ans (δ i)} (hp : ∀ j, (p j).Every P) (hq : q.Every P) (j : ι) :
    (Function.update p i q j).Every P := by
  by_cases hj : j = i
  · subst hj
    rwa [Function.update_self]
  · rw [Function.update_of_ne hj]
    exact hp j

theorem Every.mono {Q : Act → Prop} {p : Prog Act Ans α} (hp : p.Every P) (h : ∀ a, P a → Q a) :
    p.Every Q := by
  induction p with
  | ret x => trivial
  | act a k ih =>
      exact ⟨h a hp.1, fun r => ih r (hp.2 r)⟩

theorem Every.performs {p : Prog Act Ans α} (hp : p.Every P) (s : σ) : p.Performs h P s := by
  induction p generalizing s with
  | ret x => trivial
  | act a k ih =>
      exact ⟨hp.1, ih _ (hp.2 _) _⟩

/-- What every action of a run preserves, the run preserves. -/
theorem run_invariant {I : σ → Prop} (hstep : ∀ a s, P a → I s → I (h a s).2)
    (p : Prog Act Ans α) (s : σ) (hp : p.Performs h P s) (hs : I s) : I (p.run h s).2 := by
  induction p generalizing s with
  | ret x => exact hs
  | act a k ih =>
      exact ih _ _ hp.2 (hstep a s hp.1 hs)

/-- Two systems that answer alike, the one seen through `f`, run alike. -/
theorem run_map {τ : Type*} {g : (a : Act) → τ → Ans a × τ} {f : σ → τ}
    (hf : ∀ a s, g a (f s) = ((h a s).1, f (h a s).2)) (p : Prog Act Ans α) (s : σ) :
    p.run g (f s) = ((p.run h s).1, f (p.run h s).2) := by
  induction p generalizing s with
  | ret x => rfl
  | act a k ih =>
      rw [run_act, run_act, hf, ih]

/-- `I` holds before every action of the run from `s`. -/
def Throughout (h : (a : Act) → σ → Ans a × σ) (I : σ → Prop) : Prog Act Ans α → σ → Prop
  | .ret _, _ => True
  | .act a k, s => I s ∧ Throughout h I (k (h a s).1) (h a s).2

theorem throughout_bind {I : σ → Prop} {p : Prog Act Ans α} {f : α → Prog Act Ans β} {s : σ}
    (hp : p.Throughout h I s) (hf : (f (p.run h s).1).Throughout h I (p.run h s).2) :
    (p >>= f).Throughout h I s := by
  induction p generalizing s with
  | ret x => exact hf
  | act a k ih =>
      exact ⟨hp.1, ih _ hp.2 hf⟩

theorem Throughout.mono {I J : σ → Prop} {p : Prog Act Ans α} {s : σ} (hp : p.Throughout h I s)
    (hIJ : ∀ s, I s → J s) : p.Throughout h J s := by
  induction p generalizing s with
  | ret x => trivial
  | act a k ih =>
      exact ⟨hIJ s hp.1, ih _ hp.2⟩

theorem Every.throughout {I : σ → Prop} {p : Prog Act Ans α} {s : σ}
    (hstep : ∀ a s, P a → I s → I (h a s).2) (hp : p.Every P) (hs : I s) :
    p.Throughout h I s := by
  induction p generalizing s with
  | ret x => trivial
  | act a k ih =>
      exact ⟨hs, ih _ (hp.2 _) (hstep a s hp.1 hs)⟩

end Run

/-! ## Runs with several outcomes -/

/-- The program can run from `s` to its end, returning `x` in state `t`, where an action `a` can
answer `r` and lead from `s` to `u` if `R a s r u`. -/
def Eval (R : (a : Act) → σ → Ans a → σ → Prop) : Prog Act Ans α → σ → α → σ → Prop
  | .ret y, s, x, t => x = y ∧ t = s
  | .act a k, s, x, t => ∃ r u, R a s r u ∧ Eval R (k r) u x t

section Eval

variable {R : (a : Act) → σ → Ans a → σ → Prop}

@[simp] theorem eval_ret (y x : α) (s t : σ) :
    (ret y : Prog Act Ans α).Eval R s x t ↔ x = y ∧ t = s := Iff.rfl

@[simp] theorem eval_act (a : Act) (k : Ans a → Prog Act Ans α) (s : σ) (x : α) (t : σ) :
    (act a k).Eval R s x t ↔ ∃ r u, R a s r u ∧ (k r).Eval R u x t := Iff.rfl

@[simp] theorem eval_bind (p : Prog Act Ans α) (f : α → Prog Act Ans β) (s : σ) (x : β) (t : σ) :
    (p >>= f).Eval R s x t ↔ ∃ y u, p.Eval R s y u ∧ (f y).Eval R u x t := by
  induction p generalizing s with
  | ret y =>
      constructor
      · intro h
        exact ⟨y, s, ⟨rfl, rfl⟩, h⟩
      · rintro ⟨_, _, ⟨rfl, rfl⟩, h⟩
        exact h
  | act a k ih =>
      constructor
      · rintro ⟨r, u, hR, h⟩
        rcases (ih r u).1 h with ⟨y, v, hp, hf⟩
        exact ⟨y, v, ⟨r, u, hR, hp⟩, hf⟩
      · rintro ⟨y, v, ⟨r, u, hR, hp⟩, hf⟩
        exact ⟨r, u, hR, (ih r u).2 ⟨y, v, hp, hf⟩⟩

/-- An action with a single outcome, and what comes after it. -/
theorem eval_of_unique {a : Act} {s v : σ} {r : Ans a}
    (hR : ∀ r' u, R a s r' u ↔ r' = r ∧ u = v) (f : Ans a → Prog Act Ans β) (x : β) (t : σ) :
    (act a .ret >>= f).Eval R s x t ↔ (f r).Eval R v x t := by
  constructor
  · rintro ⟨r', u, hr, h⟩
    rcases (hR r' u).1 hr with ⟨rfl, rfl⟩
    exact h
  · intro h
    exact ⟨r, v, (hR r v).2 ⟨rfl, rfl⟩, h⟩

/-- The run that takes one of the outcomes of every action. -/
theorem eval_of_run {h : (a : Act) → σ → Ans a × σ} (hR : ∀ a s, R a s (h a s).1 (h a s).2)
    (p : Prog Act Ans α) (s : σ) : p.Eval R s (p.run h s).1 (p.run h s).2 := by
  induction p generalizing s with
  | ret x => exact ⟨rfl, rfl⟩
  | act a k ih =>
      exact ⟨(h a s).1, (h a s).2, hR a s, ih _ _⟩

/-- What every outcome of the program's actions preserves, every run preserves. -/
theorem Every.eval_invariant {P : Act → Prop} {I : σ → Prop} {p : Prog Act Ans α} {s t : σ} {x : α}
    (hstep : ∀ a s r u, P a → R a s r u → I s → I u) (hp : p.Every P) (h : p.Eval R s x t)
    (hs : I s) : I t := by
  induction p generalizing s with
  | ret y =>
      rcases h with ⟨_, rfl⟩
      exact hs
  | act a k ih =>
      rcases h with ⟨r, u, hR, hk⟩
      exact ih r (hp.2 r) hk (hstep a s r u hp.1 hR hs)

end Eval

/-! ## The length of a program -/

/-- At most `n` actions, on any branch. -/
def Within : Prog Act Ans α → Nat → Prop
  | .ret _, _ => True
  | .act _ _, 0 => False
  | .act _ k, n + 1 => ∀ r, (k r).Within n

theorem Within.mono {p : Prog Act Ans α} {n m : Nat} (h : p.Within n) (hle : n ≤ m) :
    p.Within m := by
  induction p generalizing n m with
  | ret x => trivial
  | act a k ih =>
      rcases n with _ | n
      · exact h.elim
      · rcases m with _ | m
        · exact absurd hle (Nat.not_succ_le_zero n)
        · exact fun r => ih r (h r) (Nat.le_of_succ_le_succ hle)

/-- With finitely many answers to each action every program has a bound. -/
theorem exists_within [∀ a, Finite (Ans a)] (p : Prog Act Ans α) : ∃ n, p.Within n := by
  induction p with
  | ret x => exact ⟨0, trivial⟩
  | act a k ih =>
      choose bound hbound using ih
      rcases (Set.finite_range bound).bddAbove with ⟨n, hn⟩
      exact ⟨n + 1, fun r => (hbound r).mono (hn ⟨r, rfl⟩)⟩

/-! ## Single steps -/

/-- Perform the next action of a program on a shared state; `none` if the program has returned or
the action blocks. -/
def step (perform : (a : Act) → σ → Option (Ans a × σ)) :
    Prog Act Ans α → σ → Option (Prog Act Ans α × σ)
  | .ret _, _ => none
  | .act a k, s => (perform a s).map fun rs => (k rs.1, rs.2)

/-- The next `n` actions of a program; `none` if it returns before, or one of them blocks. -/
def steps (perform : (a : Act) → σ → Option (Ans a × σ)) :
    Nat → Prog Act Ans α → σ → Option (Prog Act Ans α × σ)
  | 0, p, s => some (p, s)
  | n + 1, p, s => (p.step perform s).bind fun q => steps perform n q.1 q.2

end Prog

/-! ## Control-point automata -/

/-- A program given by its control points: the action each performs, and where it goes on. -/
structure Automaton (Act : Type) (Ans : Act → Type) (Pc α : Type) where
  act : Pc → Act
  next : (p : Pc) → Ans (act p) → Pc ⊕ α

namespace Automaton

variable {Act : Type} {Ans : Act → Type} {Pc α : Type} {σ : Type u}

/-- `code p` is the rest of the program at control point `p`. -/
def Unfolds (A : Automaton Act Ans Pc α) (code : Pc → Prog Act Ans α) : Prop :=
  ∀ p, code p = .act (A.act p) fun r => (A.next p r).elim code .ret

/-- One step of the automaton on a shared state; `none` if the action blocks. -/
def step (A : Automaton Act Ans Pc α) (perform : (a : Act) → σ → Option (Ans a × σ))
    (p : Pc) (s : σ) : Option ((Pc ⊕ α) × σ) :=
  (perform (A.act p) s).map fun rs => (A.next p rs.1, rs.2)

/-- An automaton steps exactly as the programs it unfolds to: the two block together, change the
shared state alike, and stay related. -/
theorem Unfolds.step_eq {A : Automaton Act Ans Pc α} {code : Pc → Prog Act Ans α}
    (h : A.Unfolds code) (perform : (a : Act) → σ → Option (Ans a × σ)) (p : Pc) (s : σ) :
    (code p).step perform s =
      (A.step perform p s).map fun qs => (qs.1.elim code .ret, qs.2) := by
  rw [h p]
  simp only [Prog.step, step, Option.map_map]
  rfl

end Automaton

end Atomic
