import PicoCppSdk.Foundation.Program
import PicoCppSdk.Foundation.Transition

/-!
# Threads — programs that share a state

Each thread runs a program; a thread that has returned can be called again.  The threads take their
next actions on the shared state one at a time, in any order, and events of the surroundings change
the shared state in between.
-/

namespace Atomic

open Transition

universe u v w x

structure Threads {ι : Type v} (Act : Type) (Ans : Act → Type) (σ : Type u) (α : ι → Type) where
  shared : σ
  thread : (i : ι) → Prog Act Ans (α i)

/-- How the threads go on: the effect of an action and of an event, and what a call has its thread
do, which returned `x` before. -/
structure Machine {ι : Type v} (Act : Type) (Ans : Act → Type) (σ : Type u) (α : ι → Type)
    (κ : Type w) (ε : Type x) where
  perform : ι → (a : Act) → σ → Option (Ans a × σ)
  caller : κ → ι
  entry : (c : κ) → α (caller c) → Prog Act Ans (α (caller c))
  event : ε → σ → Option σ

namespace Machine

inductive Label (ι : Type v) (κ : Type w) (ε : Type x) where
  | act (i : ι)
  | call (c : κ)
  | event (e : ε)

/-- What is seen of a step from outside: calls and events. -/
def Label.shown {ι : Type v} {κ : Type w} {ε : Type x} : Label ι κ ε → Option (κ ⊕ ε)
  | .act _ => none
  | .call c => some (.inl c)
  | .event e => some (.inr e)

theorem Label.shown_replicate {ι : Type v} {κ : Type w} {ε : Type x} (i : ι) (n : Nat) :
    (List.replicate n (.act i : Label ι κ ε)).filterMap Label.shown = [] := by
  simp [List.filterMap_replicate, Label.shown]

variable {ι : Type v} [DecidableEq ι] {Act : Type} {Ans : Act → Type} {σ : Type u} {α : ι → Type}
  {κ : Type w} {ε : Type x}

def step (M : Machine Act Ans σ α κ ε) :
    Label ι κ ε → Threads Act Ans σ α → Option (Threads Act Ans σ α)
  | .act i, s =>
      ((s.thread i).step (M.perform i) s.shared).map fun q =>
        { shared := q.2, thread := Function.update s.thread i q.1 }
  | .call c, s =>
      match s.thread (M.caller c) with
      | .ret x => some { s with thread := Function.update s.thread (M.caller c) (M.entry c x) }
      | .act _ _ => none
  | .event e, s => (M.event e s.shared).map fun c => { s with shared := c }

variable {M : Machine Act Ans σ α κ ε} {s t : Threads Act Ans σ α} {i : ι}

theorem step_act_cases (h : M.step (.act i) s = some t) :
    ∃ q c, (s.thread i).step (M.perform i) s.shared = some (q, c) ∧
      t = { shared := c, thread := Function.update s.thread i q } := by
  rcases Option.map_eq_some_iff.1 h with ⟨⟨q, c⟩, hstep, rfl⟩
  exact ⟨q, c, hstep, rfl⟩

theorem step_call_cases {c : κ} (h : M.step (.call c) s = some t) :
    ∃ x, s.thread (M.caller c) = .ret x ∧
      t = { s with thread := Function.update s.thread (M.caller c) (M.entry c x) } := by
  simp only [step] at h
  split at h
  · rename_i x hx
    exact ⟨x, hx, (Option.some.inj h).symm⟩
  · cases h

theorem step_event_cases {e : ε} (h : M.step (.event e) s = some t) :
    ∃ c, M.event e s.shared = some c ∧ t = { s with shared := c } := by
  rcases Option.map_eq_some_iff.1 h with ⟨c, hc, rfl⟩
  exact ⟨c, hc, rfl⟩

theorem step_act {q : Prog Act Ans (α i)} {c : σ}
    (h : (s.thread i).step (M.perform i) s.shared = some (q, c)) :
    M.step (.act i) s = some { shared := c, thread := Function.update s.thread i q } := by
  rw [step, h, Option.map_some]

theorem step_call {c : κ} {x : α (M.caller c)} (h : s.thread (M.caller c) = .ret x) :
    M.step (.call c) s =
      some { s with thread := Function.update s.thread (M.caller c) (M.entry c x) } := by
  simp only [step, h]

theorem step_event {e : ε} {c : σ} (h : M.event e s.shared = some c) :
    M.step (.event e) s = some { s with shared := c } := by
  rw [step, h, Option.map_some]

/-- A thread that goes on alone for `n` actions. -/
theorem run_alone {n : Nat} {p : Prog Act Ans (α i)} {c : σ}
    (h : Prog.steps (M.perform i) n (s.thread i) s.shared = some (p, c)) :
    Run M.step Free s (List.replicate n (.act i))
      { shared := c, thread := Function.update s.thread i p } := by
  induction n generalizing s with
  | zero =>
      cases h
      rw [Function.update_eq_self]
      exact .nil s
  | succ n ih =>
      rcases Option.bind_eq_some_iff.1 h with ⟨⟨q, d⟩, hstep, hrest⟩
      refine .cons trivial (step_act hstep) ?_
      have hrun := ih (s := { shared := d, thread := Function.update s.thread i q }) (by simpa)
      simpa using hrun

end Machine

end Atomic
