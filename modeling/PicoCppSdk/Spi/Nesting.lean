import PicoCppSdk.Spi.Alone

/-!
# Nesting — what a bracketed program does with the mutex when it runs alone

A flat program holds the mutex exactly while it has a bracket open.  Inside a `lock` bracket the
first inner `csDeselect` frees the mutex, and a `lock` that comes right after the `lock` or
`csSelect` around it waits for its own task.
-/

namespace PicoCppSdk
namespace Spi

open Transition

/-! ## Shapes of programs -/

namespace Script

def IsDone : {b : Bool} → Script b → Prop
  | _, .done => True
  | _, .cs _ _ => False
  | _, .lock _ _ => False

def StartsWithLock : {b : Bool} → Script b → Prop
  | _, .lock _ _ => True
  | _, _ => False

/-- No bracket is opened inside another one. -/
def Flat : {b : Bool} → Script b → Prop
  | _, .done => True
  | _, .cs body next => body.IsDone ∧ next.Flat
  | _, .lock body next => body.IsDone ∧ next.Flat

/-- Somewhere a `lock` comes right after the `lock` or `csSelect` of the bracket around it. -/
def SelfLocks : {b : Bool} → Script b → Prop
  | _, .done => False
  | _, .cs body next => body.StartsWithLock ∨ next.SelfLocks
  | _, .lock body next => body.StartsWithLock ∨ body.SelfLocks ∨ next.SelfLocks

theorem code_of_isDone {b : Bool} {p : Script b} (h : p.IsDone) : p.code = [] := by
  cases p with
  | done => rfl
  | cs body next => exact h.elim
  | lock body next => exact h.elim

theorem flat_of_isDone {b : Bool} {p : Script b} (h : p.IsDone) : p.Flat := by
  cases p with
  | done => trivial
  | cs body next => exact h.elim
  | lock body next => exact h.elim

theorem isDone_of_code {b : Bool} {p : Script b} (h : p.code = []) : p.IsDone := by
  cases p with
  | done => trivial
  | cs body next => cases h
  | lock body next => cases h

theorem isDone_or_startsWithLock (p : Script false) : p.IsDone ∨ p.StartsWithLock := by
  cases p with
  | done => exact Or.inl trivial
  | lock body next => exact Or.inr trivial

/-- The first action of a program that has one is a mutex call. -/
theorem code_opens {b : Bool} (p : Script b) :
    p.code = [] ∨ ∃ a as, p.code = a :: as ∧ a.Opens := by
  cases p with
  | done => exact Or.inl rfl
  | cs body next => exact Or.inr ⟨.takeRecursive, _, rfl, trivial⟩
  | lock body next => exact Or.inr ⟨.take, _, rfl, trivial⟩

theorem code_eq_of_startsWithLock {b : Bool} {p : Script b} (h : p.StartsWithLock) :
    ∃ as, p.code = .take :: as := by
  cases p with
  | done => exact h.elim
  | cs body next => exact h.elim
  | lock body next => exact ⟨_, rfl⟩

theorem code_cs_append (body : Script false) (next : Script true) (rest : List Act) :
    (cs body next).code ++ rest =
      csSelect true ++ (body.code ++ (csDeselect true ++ (next.code ++ rest))) := by
  simp only [code, List.append_assoc]

theorem code_lock_append {b : Bool} (body next : Script b) (rest : List Act) :
    (lock body next).code ++ rest =
      Spi.lock true ++ (body.code ++ (unlock true ++ (next.code ++ rest))) := by
  simp only [code, List.append_assoc]

end Script

namespace Sys

variable {d : Nat} {rest : List Act}

/-! ## Flat programs alone -/

/-- A flat program alone: between its brackets it leaves the bus as it found it. -/
structure Fine (u : Sys Unit) : Prop where
  released : u.bus.mutex = none → u.bus = .idle ∧ (u.thread ()).depth = 0
  opens : u.bus.mutex = none → (u.thread ()).todo = [] ∨ u.Opening ()
  noSelfWait : ¬ u.SelfWaits ()
  quiet : u.bus.fired = false

theorem fine_of_held (b : Bus Unit) (a : Act) (as : List Act) (d : Nat) (hb : b.mutex ≠ none)
    (hfired : b.fired = false) (ha : a ≠ .take) : Fine (alone b (a :: as) d) where
  released h := absurd h hb
  opens h := absurd h hb
  noSelfWait h := ha (selfWaits_alone_cons.1 h).2
  quiet := hfired

theorem fine_of_opens {a : Act} {as : List Act} (ha : a.Opens) :
    Fine (alone .idle (a :: as) 0) where
  released _ := ⟨rfl, rfl⟩
  opens _ := Or.inr ⟨a, as, rfl, ha⟩
  noSelfWait h := (selfWaits_alone_cons.1 h).1 rfl
  quiet := rfl

theorem fine_nil : Fine (alone .idle [] 0) where
  released _ := ⟨rfl, rfl⟩
  opens _ := Or.inl rfl
  noSelfWait := not_selfWaits_alone_nil
  quiet := rfl

theorem always_fine_append {b : Bool} {p : Script b} (hp : p.Flat)
    (hrest : Always step Fine (alone .idle rest 0)) :
    Always step Fine (alone .idle (p.code ++ rest) 0) := by
  induction p with
  | done => exact hrest
  | cs body next _ ih =>
      rcases hp with ⟨hbody, hnext⟩
      rw [Script.code_cs_append, Script.code_of_isDone hbody, List.nil_append,
        always_csSelect fine_of_held, always_csDeselect fine_of_held]
      exact ⟨fine_of_opens trivial, ih hnext⟩
  | lock body next _ ih =>
      rcases hp with ⟨hbody, hnext⟩
      rw [Script.code_lock_append, Script.code_of_isDone hbody, List.nil_append,
        always_lock, always_unlock fine_of_held]
      exact ⟨fine_of_opens trivial, ih hnext⟩

theorem always_fine_of_flat {p : Script true} (hp : p.Flat) :
    Always step Fine (alone .idle p.code 0) := by
  have h := always_fine_append hp (always_nil.2 fine_nil)
  rwa [List.append_nil] at h

/-! ## Nested programs alone -/

/-- The task holds the mutex while it has a bracket open, and never waits for it then. -/
structure Kept (u : Sys Unit) : Prop where
  closed : u.bus.mutex = none → (u.thread ()).depth = 0
  noSelfWait : ¬ u.SelfWaits ()

theorem kept_of_held (b : Bus Unit) (a : Act) (as : List Act) (d : Nat) (hb : b.mutex ≠ none)
    (_ : b.fired = false) (ha : a ≠ .take) : Kept (alone b (a :: as) d) where
  closed h := absurd h hb
  noSelfWait h := ha (selfWaits_alone_cons.1 h).2

theorem selfWaits_of_startsWithLock {b : Bool} {p : Script b} {v : Bus Unit} (hv : v.mutex ≠ none)
    (hp : p.StartsWithLock) : (alone v (p.code ++ rest) d).SelfWaits () := by
  rcases Script.code_eq_of_startsWithLock hp with ⟨as, hcode⟩
  rw [hcode]
  exact selfWaits_alone_cons.2 ⟨hv, rfl⟩

theorem flat_of_always_kept {b : Bool} {p : Script b}
    (h : Always step Kept (alone .idle (p.code ++ rest) 0)) :
    p.Flat ∧ Always step Kept (alone .idle rest 0) := by
  induction p with
  | done => exact ⟨trivial, h⟩
  | cs body next _ ih =>
      rw [Script.code_cs_append, always_csSelect kept_of_held] at h
      rcases body.isDone_or_startsWithLock with hbody | hbody
      -- Inside `csSelect` only a `lock` could stand, and the task would wait for itself there.
      · rw [Script.code_of_isDone hbody, List.nil_append, always_csDeselect kept_of_held] at h
        rcases ih h.2 with ⟨hnext, hrest⟩
        exact ⟨⟨hbody, hnext⟩, hrest⟩
      · exact absurd (selfWaits_of_startsWithLock (by simp [selected]) hbody) h.2.now.noSelfWait
  | lock body next _ ih =>
      rw [Script.code_lock_append, always_lock] at h
      have hbody := h.2
      cases body with
      | done =>
          rw [Script.code, List.nil_append, always_unlock kept_of_held] at hbody
          rcases ih hbody with ⟨hnext, hrest⟩
          exact ⟨⟨trivial, hnext⟩, hrest⟩
      | lock inner after =>
          have hstarts : (Script.lock inner after).StartsWithLock := trivial
          exact absurd (selfWaits_of_startsWithLock (by simp [locked]) hstarts)
            hbody.now.noSelfWait
      | cs inner after =>
          rw [Script.code_cs_append, always_csSelect_locked kept_of_held] at hbody
          rcases inner.isDone_or_startsWithLock with hdone | hlock
          · -- The inner bracket is closed: the mutex is free, and the `lock` bracket still open.
            rw [Script.code_of_isDone hdone, List.nil_append,
              always_csDeselect kept_of_held] at hbody
            exact absurd (hbody.now.closed rfl) (Nat.succ_ne_zero 0)
          · exact absurd (selfWaits_of_startsWithLock (by simp [selected]) hlock)
              hbody.now.noSelfWait

/-! ## Waiting for oneself -/

/-- The task does not wait for its own mutex. -/
def Calm (u : Sys Unit) : Prop :=
  ¬ u.SelfWaits ()

theorem calm_of_held (b : Bus Unit) (a : Act) (as : List Act) (d : Nat) (_ : b.mutex ≠ none)
    (_ : b.fired = false) (ha : a ≠ .take) : Calm (alone b (a :: as) d) :=
  fun h => ha (selfWaits_alone_cons.1 h).2

theorem calm_idle (as : List Act) (d : Nat) : Calm (alone .idle as d) := by
  cases as with
  | nil => exact not_selfWaits_alone_nil
  | cons a as => exact fun h => (selfWaits_alone_cons.1 h).1 rfl

/-- `unlock` after an inner bracket has freed the mutex. -/
theorem always_calm_unlock_idle :
    Always step Calm (alone .idle (unlock true ++ rest) d) ↔
      Always step Calm (alone .idle rest (d - 1)) := by
  change Always step Calm (alone .idle (.give :: rest) d) ↔ _
  simp only [always_cons, calm_idle, true_and, Bus.perform, Option.some.injEq, forall_eq']
  rfl

theorem always_calm_append_iff {b : Bool} (p : Script b) (rest : List Act) (d : Nat) :
    Always step Calm (alone .idle (p.code ++ rest) d) ↔
      ¬ p.SelfLocks ∧ Always step Calm (alone .idle rest d) := by
  induction p generalizing rest d with
  | done => simp [Script.code, Script.SelfLocks]
  | cs body next _ ih =>
      rw [Script.code_cs_append, always_csSelect calm_of_held]
      cases body with
      | done =>
          rw [Script.code, List.nil_append, always_csDeselect calm_of_held]
          simp [calm_idle, ih, Script.SelfLocks, Script.StartsWithLock]
      | lock inner after =>
          have hwait : ¬ Always step Calm (alone selected
              ((Script.lock inner after).code ++ (csDeselect true ++ (next.code ++ rest)))
              (d + 1)) :=
            fun h => h.now (selfWaits_of_startsWithLock (by simp [selected]) trivial)
          simp [hwait, Script.SelfLocks, Script.StartsWithLock]
  | lock body next ihbody ih =>
      rw [Script.code_lock_append, always_lock]
      cases body with
      | done =>
          rw [Script.code, List.nil_append, always_unlock calm_of_held]
          simp [calm_idle, ih, Script.SelfLocks, Script.StartsWithLock]
      | lock inner after =>
          have hwait : ¬ Always step Calm (alone locked
              ((Script.lock inner after).code ++ (unlock true ++ (next.code ++ rest))) (d + 1)) :=
            fun h => h.now (selfWaits_of_startsWithLock (by simp [locked]) trivial)
          simp [hwait, Script.SelfLocks, Script.StartsWithLock]
      | cs inner after =>
          -- From here the body runs as if there were no `lock` around it.
          have hbody := ihbody (unlock true ++ (next.code ++ rest)) (d + 1)
          rw [Script.code_cs_append, always_csSelect calm_of_held] at hbody
          rw [Script.code_cs_append, always_csSelect_locked calm_of_held]
          rw [always_calm_unlock_idle, Nat.add_sub_cancel, ih] at hbody
          simp only [calm_idle, true_and] at hbody ⊢
          rw [hbody]
          simp [Script.SelfLocks, Script.StartsWithLock, and_assoc]

theorem always_calm_iff {p : Script true} :
    Always step Calm (alone .idle p.code 0) ↔ ¬ p.SelfLocks := by
  have h := always_calm_append_iff p [] 0
  rw [List.append_nil] at h
  rw [h]
  exact and_iff_left (always_nil.2 (calm_idle [] 0))

end Sys
end Spi
end PicoCppSdk
