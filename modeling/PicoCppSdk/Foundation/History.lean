import PicoCppSdk.Foundation.Transition

/-!
# History — a record kept beside the state of a system

`withHistory step note` is the system `step` together with a value that no step reads: `note` says
how a step with label `l` from the state `s` changes it.  Its runs are those of `step`.
-/

namespace Transition

universe u v w

variable {σ : Type u} {ι : Type v} {η : Type w}

/-- The system `step` with a record of its past. -/
def withHistory (step : ι → σ → Option σ) (note : ι → σ → η → η) (l : ι) (p : σ × η) :
    Option (σ × η) :=
  (step l p.1).map fun t => (t, note l p.1 p.2)

section

variable {step : ι → σ → Option σ} {note : ι → σ → η → η} {ok : σ → ι → Prop} {l : ι}
  {p q : σ × η} {s t : σ} {h : η}

theorem withHistory_eq_some :
    withHistory step note l p = some q ↔ step l p.1 = some q.1 ∧ q.2 = note l p.1 p.2 := by
  constructor
  · intro hq
    rcases Option.map_eq_some_iff.1 hq with ⟨t, ht, rfl⟩
    exact ⟨ht, rfl⟩
  · rintro ⟨hstep, hnote⟩
    rw [withHistory, hstep, Option.map_some, ← hnote]

/-- Every run has its record. -/
theorem Run.record {ls : List ι} (hrun : Run step ok s ls t) :
    ∃ h', Run (withHistory step note) (fun p l => ok p.1 l) (s, h) ls (t, h') := by
  induction hrun generalizing h with
  | nil s => exact ⟨h, .nil _⟩
  | cons hok hl _ ih =>
      rcases ih with ⟨h', hrest⟩
      exact ⟨h', .cons hok (withHistory_eq_some.2 ⟨hl, rfl⟩) hrest⟩

end

end Transition
