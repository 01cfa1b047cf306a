import Mathlib.Data.List.Basic
import Mathlib.Logic.Relation

/-!
# Transition — runs of a labelled partial step function

A system is a partial function `step : ι → σ → Option σ`: the label says who moves, `none` says
that this party cannot move now.  `Run step ok s ls t` is a run from `s` to `t` with labels `ls`
all of whose steps meet the side condition `ok`; taking `ok` to be always true gives all
interleavings.
-/

namespace Transition

universe u v w

variable {σ : Type u} {ι : Type v}

/-- The side condition that every step meets. -/
def Free (_ : σ) (_ : ι) : Prop := True

instance (s : σ) (l : ι) : Decidable (Free s l) :=
  inferInstanceAs (Decidable True)

/-- A run whose steps all meet `ok` (a condition on the state before the step and its label). -/
inductive Run (step : ι → σ → Option σ) (ok : σ → ι → Prop) : σ → List ι → σ → Prop where
  | nil (s : σ) : Run step ok s [] s
  | cons {s t u : σ} {l : ι} {ls : List ι} :
      ok s l → step l s = some t → Run step ok t ls u → Run step ok s (l :: ls) u

/-- `t` is reached from `s` by some run. -/
def Reachable (step : ι → σ → Option σ) (s t : σ) : Prop :=
  ∃ ls, Run step Free s ls t

variable {step : ι → σ → Option σ} {ok ok' : σ → ι → Prop} {s t u : σ}

namespace Run

/-- An invariant of the steps is an invariant of the runs. -/
theorem invariant {I : σ → Prop}
    (hstep : ∀ s l t, I s → ok s l → step l s = some t → I t)
    {ls : List ι} (h : Run step ok s ls t) (hs : I s) : I t := by
  induction h with
  | nil s => exact hs
  | cons hok hl _ ih =>
      exact ih (hstep _ _ _ hs hok hl)

theorem mono (hok : ∀ s l, ok s l → ok' s l) {ls : List ι} (h : Run step ok s ls t) :
    Run step ok' s ls t := by
  induction h with
  | nil s => exact .nil s
  | cons hl hs _ ih =>
      exact .cons (hok _ _ hl) hs ih

theorem append {ls ms : List ι} (h : Run step ok s ls t) (h' : Run step ok t ms u) :
    Run step ok s (ls ++ ms) u := by
  induction h with
  | nil s => exact h'
  | cons hl hs _ ih =>
      exact .cons hl hs (ih h')

theorem single {l : ι} (hok : ok s l) (hl : step l s = some t) : Run step ok s [l] t :=
  .cons hok hl (.nil t)

end Run

namespace Reachable

theorem refl (s : σ) : Reachable step s s :=
  ⟨[], .nil s⟩

theorem trans (h : Reachable step s t) (h' : Reachable step t u) : Reachable step s u := by
  rcases h with ⟨ls, hls⟩
  rcases h' with ⟨ms, hms⟩
  exact ⟨ls ++ ms, hls.append hms⟩

theorem single {l : ι} (hl : step l s = some t) : Reachable step s t :=
  ⟨[l], .single trivial hl⟩

theorem invariant {I : σ → Prop} (hstep : ∀ s l t, I s → step l s = some t → I t)
    (h : Reachable step s t) (hs : I s) : I t := by
  rcases h with ⟨ls, hls⟩
  exact hls.invariant (fun s l t hI _ hl => hstep s l t hI hl) hs

end Reachable

/-! ## What holds at every point of every run -/

/-- `P` holds in every state reached from `s`. -/
def Always (step : ι → σ → Option σ) (P : σ → Prop) (s : σ) : Prop :=
  ∀ t, Reachable step s t → P t

namespace Always

variable {P : σ → Prop}

theorem now (h : Always step P s) : P s :=
  h s (.refl s)

theorem next (h : Always step P s) {l : ι} (hl : step l s = some t) : Always step P t := by
  intro u hu
  exact h u ((Reachable.single hl).trans hu)

/-- `P` always holds if it holds now and always holds after whatever step comes next. -/
theorem unfold : Always step P s ↔ P s ∧ ∀ l t, step l s = some t → Always step P t := by
  constructor
  · intro h
    exact ⟨h.now, fun l t hl => h.next hl⟩
  · rintro ⟨hs, hnext⟩ t ⟨ls, hrun⟩
    cases hrun with
    | nil => exact hs
    | cons _ hl hrest => exact hnext _ _ hl _ ⟨_, hrest⟩

theorem exists_of_not (h : ¬ Always step P s) : ∃ t, Reachable step s t ∧ ¬ P t := by
  by_contra hnone
  refine h fun t ht => ?_
  by_contra hP
  exact hnone ⟨t, ht, hP⟩

end Always

/-! ## Conditions on the steps -/

/-- Where each step that meets `E` keeps `P` exactly when it meets `ok`, the runs that stay in `P`
are the runs whose steps meet `ok`.  `I` is what the steps that meet `ok` keep besides `P`. -/
theorem Run.stays_within_iff {E : σ → ι → Prop} {I P : σ → Prop} (hP : ∀ s, I s → P s)
    (hkeep : ∀ s l t, I s → E s l → step l s = some t → ok s l → I t)
    (hbreak : ∀ s l t, I s → E s l → step l s = some t → P t → ok s l) {ls : List ι} (hs : I s) :
    (Run step (fun s l => E s l ∧ P s) s ls t ∧ P t) ↔
      Run step (fun s l => E s l ∧ ok s l) s ls t := by
  constructor
  · rintro ⟨h, ht⟩
    induction h with
    | nil s => exact .nil s
    | cons hE hl hrest ih =>
        -- The next state of the run is in `P`: it is the last one, or has a next step itself.
        have hnext := by
          cases hrest with
          | nil => exact ht
          | cons hP' _ _ => exact hP'.2
        have hok := hbreak _ _ _ hs hE.1 hl hnext
        exact .cons ⟨hE.1, hok⟩ hl (ih (hkeep _ _ _ hs hE.1 hl hok) ht)
  · intro h
    induction h with
    | nil s => exact ⟨.nil s, hP s hs⟩
    | cons hok hl _ ih =>
        rcases ih (hkeep _ _ _ hs hok.1 hl hok.2) with ⟨hrest, ht⟩
        exact ⟨.cons ⟨hok.1, hP _ hs⟩ hl hrest, ht⟩

/-- The same over all interleavings. -/
theorem Run.stays_iff {I P : σ → Prop} (hP : ∀ s, I s → P s)
    (hkeep : ∀ s l t, I s → step l s = some t → ok s l → I t)
    (hbreak : ∀ s l t, I s → step l s = some t → P t → ok s l) {ls : List ι} (hs : I s) :
    (Run step (fun s _ => P s) s ls t ∧ P t) ↔ Run step ok s ls t := by
  have hiff : (Run step (fun s l => Free s l ∧ P s) s ls t ∧ P t) ↔
      Run step (fun s l => Free s l ∧ ok s l) s ls t :=
    Run.stays_within_iff hP (fun s l t hI _ => hkeep s l t hI)
      (fun s l t hI _ => hbreak s l t hI) hs
  constructor
  · rintro ⟨h, ht⟩
    exact (hiff.1 ⟨h.mono fun _ _ hl => ⟨trivial, hl⟩, ht⟩).mono fun _ _ hl => hl.2
  · intro h
    rcases hiff.2 (h.mono fun _ _ hl => ⟨trivial, hl⟩) with ⟨hrun, ht⟩
    exact ⟨hrun.mono fun _ _ hl => hl.2, ht⟩

/-- Where `P` also goes back along the steps, the runs that end in `P` are the runs whose steps meet
`ok`. -/
theorem Run.ends_iff {I P : σ → Prop} (hP : ∀ s, I s → P s)
    (hback : ∀ s l t, step l s = some t → P t → P s)
    (hkeep : ∀ s l t, I s → step l s = some t → ok s l → I t)
    (hbreak : ∀ s l t, I s → step l s = some t → P t → ok s l) {ls : List ι} (hs : I s) :
    (Run step Free s ls t ∧ P t) ↔ Run step ok s ls t := by
  rw [← Run.stays_iff hP hkeep hbreak hs]
  constructor
  · rintro ⟨h, ht⟩
    refine ⟨?_, ht⟩
    have hrun : P s ∧ Run step (fun s _ => P s) s ls t := by
      clear hs
      induction h with
      | nil s => exact ⟨ht, .nil s⟩
      | cons _ hl _ ih =>
          rcases ih ht with ⟨hnext, hrest⟩
          have hnow := hback _ _ _ hl hnext
          exact ⟨hnow, .cons hnow hl hrest⟩
    exact hrun.2
  · rintro ⟨h, ht⟩
    exact ⟨h.mono fun _ _ _ => trivial, ht⟩

/-! ## Completion -/

/-- Every run from `s` is finite, with a common bound, and stops only where `D` holds. -/
structure Completes (step : ι → σ → Option σ) (D : σ → Prop) (s : σ) : Prop where
  bounded : ∃ n, ∀ ls t, Run step Free s ls t → ls.length ≤ n
  stops : ∀ t, Reachable step s t → (∀ l, step l t = none) → D t

/-- A measure that falls with every step bounds the runs. -/
theorem Run.length_le {I : σ → Prop} {m : σ → Nat}
    (hstep : ∀ s l t, I s → step l s = some t → I t ∧ m t < m s) {ls : List ι}
    (h : Run step ok s ls t) (hs : I s) : ls.length + m t ≤ m s := by
  induction h with
  | nil s => simp
  | cons _ hl _ ih =>
      rcases hstep _ _ _ hs hl with ⟨ht, hm⟩
      have hrest := ih ht
      rw [List.length_cons]
      omega

theorem Completes.of_measure {I D : σ → Prop} {m : σ → Nat}
    (hstep : ∀ s l t, I s → step l s = some t → I t ∧ m t < m s)
    (hstop : ∀ s, I s → (∀ l, step l s = none) → D s) (hs : I s) : Completes step D s where
  bounded := ⟨m s, fun _ _ h => Nat.le_trans (Nat.le_add_right _ _) (h.length_le hstep hs)⟩
  stops _ h := hstop _ (h.invariant (fun s l t hI hl => (hstep s l t hI hl).1) hs)

/-- A system that completes has a run to its end. -/
theorem Completes.exists_done {D : σ → Prop} (h : Completes step D s) :
    ∃ t, Reachable step s t ∧ D t := by
  rcases h.bounded with ⟨n, hn⟩
  by_contra hnone
  -- Otherwise there are runs of every length.
  have hlong : ∀ k, ∃ ls t, Run step Free s ls t ∧ ls.length = k := by
    intro k
    induction k with
    | zero => exact ⟨[], s, .nil s, rfl⟩
    | succ k ih =>
        rcases ih with ⟨ls, t, hrun, hlen⟩
        have hgoes : ∃ l u, step l t = some u := by
          by_contra hstuck
          refine hnone ⟨t, ⟨ls, hrun⟩, h.stops t ⟨ls, hrun⟩ fun l => ?_⟩
          cases hl : step l t with
          | none => rfl
          | some u => exact absurd ⟨l, u, hl⟩ hstuck
        rcases hgoes with ⟨l, u, hl⟩
        exact ⟨ls ++ [l], u, hrun.append (.single trivial hl), by simp [hlen]⟩
  rcases hlong (n + 1) with ⟨ls, t, hrun, hlen⟩
  have hle := hn ls t hrun
  omega

/-! ## Simulation -/

section Simulation

variable {τ : Type w} {step' : ι → τ → Option τ} {I : σ → Prop} {f : σ → τ}

/-- `f` shows the system `step`, where it is in `I`, as the system `step'`: label for label, the
two block together and go on together. -/
structure Views (step : ι → σ → Option σ) (step' : ι → τ → Option τ) (I : σ → Prop)
    (f : σ → τ) : Prop where
  map_step : ∀ s l, I s → (step l s).map f = step' l (f s)
  keeps : ∀ s l t, I s → step l s = some t → I t

theorem Views.map_some {l : ι} (hview : Views step step' I f) (hs : I s) (hl : step l s = some t) :
    step' l (f s) = some (f t) := by
  rw [← hview.map_step s l hs, hl, Option.map_some]

theorem Run.views (hview : Views step step' I f) {ls : List ι} (h : Run step Free s ls t)
    (hs : I s) : I t ∧ Run step' Free (f s) ls (f t) := by
  induction h with
  | nil s => exact ⟨hs, .nil _⟩
  | cons _ hl _ ih =>
      rcases ih (hview.keeps _ _ _ hs hl) with ⟨ht, hrest⟩
      exact ⟨ht, .cons trivial (hview.map_some hs hl) hrest⟩

theorem Reachable.views (hview : Views step step' I f) (h : Reachable step s t) (hs : I s) :
    I t ∧ Reachable step' (f s) (f t) := by
  rcases h with ⟨ls, hrun⟩
  rcases hrun.views hview hs with ⟨ht, hrun'⟩
  exact ⟨ht, ls, hrun'⟩

theorem Completes.of_views {D : τ → Prop} (hview : Views step step' I f) (hs : I s)
    (h : Completes step' D (f s)) : Completes step (fun t => D (f t)) s where
  bounded := by
    rcases h.bounded with ⟨n, hn⟩
    exact ⟨n, fun ls t hrun => hn ls _ (hrun.views hview hs).2⟩
  stops t ht hstuck := by
    rcases ht.views hview hs with ⟨hI, hreach⟩
    refine h.stops _ hreach fun l => ?_
    rw [← hview.map_step t l hI, hstuck l, Option.map_none]

/-- Along a relation that each step keeps with at most one step of `A`, a run is a sequence of steps
of `A`. -/
theorem Run.simulates_along {R : σ → τ → Prop} {A : τ → τ → Prop}
    (hstep : ∀ s a l t, R s a → ok s l → step l s = some t → ∃ b, R t b ∧ Relation.ReflGen A a b)
    {ls : List ι} (h : Run step ok s ls t) {a : τ} (hs : R s a) :
    ∃ b, R t b ∧ Relation.ReflTransGen A a b := by
  induction h generalizing a with
  | nil s => exact ⟨a, hs, .refl⟩
  | cons hok hl _ ih =>
      rcases hstep _ _ _ _ hs hok hl with ⟨b, hb, hfirst⟩
      rcases ih hb with ⟨c, hc, hrest⟩
      exact ⟨c, hc, hfirst.to_reflTransGen.trans hrest⟩

/-- A step may take any number of steps of the other system, as long as the two sides show the same
of their labels. -/
theorem Run.simulates_visible {ι' κ : Type*} {step'' : ι' → τ → Option τ} {ok'' : τ → ι' → Prop}
    {R : σ → τ → Prop} {vis : ι → Option κ} {vis' : ι' → Option κ}
    (hstep : ∀ s a l t, R s a → ok s l → step l s = some t →
      ∃ b ms, R t b ∧ Run step'' ok'' a ms b ∧ ms.filterMap vis' = [l].filterMap vis)
    {ls : List ι} (h : Run step ok s ls t) {a : τ} (hs : R s a) :
    ∃ b ms, R t b ∧ Run step'' ok'' a ms b ∧ ms.filterMap vis' = ls.filterMap vis := by
  induction h generalizing a with
  | nil s => exact ⟨a, [], hs, .nil a, rfl⟩
  | @cons s _ u l ls hok hl _ ih =>
      rcases hstep _ _ _ _ hs hok hl with ⟨b, ms, hb, hfirst, hshown⟩
      rcases ih hb with ⟨c, ns, hc, hrest, hshown'⟩
      refine ⟨c, ms ++ ns, hc, hfirst.append hrest, ?_⟩
      calc (ms ++ ns).filterMap vis'
          = [l].filterMap vis ++ ls.filterMap vis := by
            rw [List.filterMap_append, hshown, hshown']
        _ = (l :: ls).filterMap vis := by
            rw [← List.filterMap_append, List.singleton_append]

/-- Where each step is at most one step of `A` under `f`, a run is a sequence of steps of `A`. -/
theorem Run.simulates {A : τ → τ → Prop}
    (hstep : ∀ s l t, I s → ok s l → step l s = some t → I t ∧ Relation.ReflGen A (f s) (f t))
    {ls : List ι} (h : Run step ok s ls t) (hs : I s) :
    I t ∧ Relation.ReflTransGen A (f s) (f t) := by
  have halong := h.simulates_along (R := fun s a => I s ∧ f s = a) (A := A) ?_ ⟨hs, rfl⟩
  · rcases halong with ⟨b, ⟨ht, rfl⟩, hreach⟩
    exact ⟨ht, hreach⟩
  · rintro s a l t ⟨hs, rfl⟩ hok hl
    rcases hstep s l t hs hok hl with ⟨ht, hfirst⟩
    exact ⟨f t, ⟨ht, rfl⟩, hfirst⟩

end Simulation

/-! ## Executing a schedule -/

/-- Execute a schedule, checking the side condition before each step. -/
def exec (step : ι → σ → Option σ) (ok : σ → ι → Prop) [∀ s l, Decidable (ok s l)] :
    List ι → σ → Option σ
  | [], s => some s
  | l :: ls, s =>
      if ok s l then
        match step l s with
        | some t => exec step ok ls t
        | none => none
      else
        none

theorem Run.of_exec [∀ s l, Decidable (ok s l)] :
    ∀ {ls : List ι} {s t : σ}, exec step ok ls s = some t → Run step ok s ls t
  | [], s, t, h => by
      simp only [exec, Option.some.injEq] at h
      subst h
      exact .nil s
  | l :: ls, s, t, h => by
      simp only [exec] at h
      split at h
      · rename_i hok
        split at h
        · rename_i u hu
          exact .cons hok hu (Run.of_exec h)
        · cases h
      · cases h

/-- A schedule that executes to a state which passes the test `P` gives a run to such a state. -/
theorem exists_run_of_exec (step : ι → σ → Option σ) (ok : σ → ι → Prop)
    [∀ s l, Decidable (ok s l)] (s : σ) (ls : List ι) (P : σ → Bool)
    (h : (exec step ok ls s).any P = true) : ∃ t, Run step ok s ls t ∧ P t = true := by
  rcases (Option.any_eq_true P _).1 h with ⟨t, ht, hP⟩
  exact ⟨t, .of_exec ht, hP⟩

end Transition
