import PicoCppSdk.Spi.Bracket

/-!
# Alone — one task on the bus

A task that runs alone is a system over `Unit`.  What it does there it also does among other tasks,
as long as they stand still (`Sys.place`).  The runs of a task alone decide which programs wait for
their own mutex and which ones leave the mutex free inside a bracket.
-/

namespace PicoCppSdk
namespace Spi

open Transition

variable {ι : Type} [DecidableEq ι]

namespace Sys

/-! ## A task alone among others -/

/-- The system `s` in which task `i` and the bus are as in `v`. -/
def place (i : ι) (v : Sys Unit) (s : Sys ι) : Sys ι where
  bus := v.bus.rename fun _ => i
  thread := Function.update s.thread i (v.thread ())

variable {i : ι} {v v' : Sys Unit} {s : Sys ι}

@[simp] theorem place_thread_self : (place i v s).thread i = v.thread () :=
  Function.update_self i _ _

theorem place_thread_of_ne {j : ι} (hj : j ≠ i) : (place i v s).thread j = s.thread j :=
  Function.update_of_ne hj _ _

theorem step_place (i : ι) (v : Sys Unit) (s : Sys ι) :
    step i (place i v s) = (step () v).map fun v' => place i v' s := by
  have hinj : Function.Injective fun _ : Unit => i := fun _ _ _ => rfl
  cases htodo : (v.thread ()).todo with
  | nil => simp [step, htodo]
  | cons a as =>
      have hperform := Bus.perform_rename hinj () v.bus a
      simp only [step, place_thread_self, htodo, Option.map_map]
      rw [show (place i v s).bus = v.bus.rename fun _ => i from rfl, hperform, Option.map_map]
      congr 1
      funext b
      simp [place]

/-- A run of one task alone is a run of the system. -/
theorem reachable_place (s : Sys ι) (h : Reachable step v v') :
    Reachable step (place i v s) (place i v' s) := by
  refine h.invariant (I := fun u => Reachable step (place i v s) (place i u s)) ?_ (.refl _)
  intro u l u' hu hstep
  have hplaced : step i (place i u s) = some (place i u' s) := by
    rw [step_place, show step () u = some u' from hstep]
    rfl
  exact hu.trans (.single hplaced)

/-- If the others have nothing to do, the system only runs as the task does alone. -/
theorem of_reachable_place (hdone : ∀ j, j ≠ i → (s.thread j).todo = [])
    {t : Sys ι} (h : Reachable step (place i v s) t) :
    ∃ v', Reachable step v v' ∧ t = place i v' s := by
  refine h.invariant (I := fun t => ∃ v', Reachable step v v' ∧ t = place i v' s) ?_
    ⟨v, .refl v, rfl⟩
  rintro _ j t ⟨u, hu, rfl⟩ hstep
  by_cases hj : j = i
  · subst hj
    rw [step_place] at hstep
    rcases Option.map_eq_some_iff.1 hstep with ⟨u', hu', rfl⟩
    exact ⟨u', hu.trans (.single hu'), rfl⟩
  · have htodo : ((place i u s).thread j).todo = [] := by
      rw [place_thread_of_ne hj]
      exact hdone j hj
    simp [step, htodo] at hstep

theorem opening_place : (place i v s).Opening i ↔ v.Opening () := by
  simp [Opening]

theorem holds_place {j : ι} : (place i v s).Holds j ↔ j = i ∧ v.Holds () := by
  rcases v with ⟨⟨_ | ⟨_, c⟩, _, _, _⟩, _⟩
  · simp [Holds, place, Bus.rename, RecursiveMutex.rename]
  · simp [Holds, place, Bus.rename, RecursiveMutex.rename, eq_comm]

theorem selfWaits_place : (place i v s).SelfWaits i ↔ v.SelfWaits () := by
  simp [SelfWaits, Waits, holds_place, opening_place, step_place]

theorem start_eq_place (script : ι → Script true) (i : ι) :
    start script = place i (start fun _ => script i) (start script) := by
  have hthread : (start script).thread =
      Function.update (start script).thread i ((start script).thread i) :=
    (Function.update_eq_self i _).symm
  exact congrArg (Sys.mk Bus.idle) hthread

/-! ## Running a task alone -/

/-- A task alone on the bus `b`, with the actions `todo` and `depth` open brackets. -/
def alone (b : Bus Unit) (todo : List Act) (depth : Nat) : Sys Unit where
  bus := b
  thread _ := ⟨todo, depth⟩

theorem start_unit (p : Script true) : (start fun _ : Unit => p) = alone .idle p.code 0 := rfl

variable {P : Sys Unit → Prop} {b : Bus Unit} {a : Act} {as : List Act} {d : Nat}

theorem step_alone_cons (u : Unit) :
    step u (alone b (a :: as) d) = (b.perform u a).map fun b' => alone b' as (a.nest d) :=
  rfl

theorem always_nil : Always step P (alone b [] d) ↔ P (alone b [] d) := by
  rw [Always.unfold]
  simp [step, alone]

theorem always_cons :
    Always step P (alone b (a :: as) d) ↔
      P (alone b (a :: as) d) ∧
        ∀ b', b.perform () a = some b' → Always step P (alone b' as (a.nest d)) := by
  rw [Always.unfold]
  refine and_congr_right fun _ => ⟨?_, ?_⟩
  · intro h b' hb'
    refine h () _ ?_
    rw [step_alone_cons, hb', Option.map_some]
  · intro h u t ht
    rw [step_alone_cons] at ht
    rcases Option.map_eq_some_iff.1 ht with ⟨b', hb', rfl⟩
    exact h b' hb'

theorem selfWaits_alone_cons :
    (alone b (a :: as) d).SelfWaits () ↔ b.mutex ≠ none ∧ a = .take := by
  have hwaits : (alone b (a :: as) d).Waits () ↔ a.Opens ∧ b.perform () a = none := by
    rw [Waits, step_alone_cons]
    simp [Opening, alone]
  rcases b with ⟨_ | ⟨⟨⟩, c⟩, x, y, z⟩
  · simp [SelfWaits, Holds, alone]
  · rw [SelfWaits, hwaits]
    cases a <;>
      simp [Holds, Act.Opens, alone, Bus.perform, RecursiveMutex.take,
        RecursiveMutex.takeRecursive]

theorem not_selfWaits_alone_nil : ¬ (alone b [] d).SelfWaits () := by
  rintro ⟨_, ⟨a, as, htodo, _⟩, _⟩
  cases htodo

/-! ## From bracket to bracket -/

/-- `csSelect` has returned, and the count is 1: also inside `lock`, which leaves it at 0. -/
def selected : Bus Unit where
  mutex := some ((), 1#32)
  csActive := true
  cs := false
  fired := false

/-- `lock` has returned. -/
def locked : Bus Unit where
  mutex := some ((), 0#32)
  csActive := false
  cs := true
  fired := false

theorem always_lock {rest : List Act} :
    Always step P (alone .idle (lock true ++ rest) d) ↔
      P (alone .idle (lock true ++ rest) d) ∧ Always step P (alone locked rest (d + 1)) := by
  simp [lock, always_cons, Bus.perform, Bus.idle, RecursiveMutex.take, Act.nest, locked]

section Walk

/- `P` is allowed to fail only where the mutex is free or the task is about to take it plainly. -/
variable (hP : ∀ b a as d, b.mutex ≠ none → b.fired = false → a ≠ .take → P (alone b (a :: as) d))
include hP

theorem always_csSelect {rest : List Act} :
    Always step P (alone .idle (csSelect true ++ rest) d) ↔
      P (alone .idle (csSelect true ++ rest) d) ∧ Always step P (alone selected rest (d + 1)) := by
  simp [csSelect, always_cons, Bus.perform, Bus.idle, RecursiveMutex.takeRecursive, hP, Act.nest,
    selected]

theorem always_csSelect_locked {rest : List Act} :
    Always step P (alone locked (csSelect true ++ rest) d) ↔
      Always step P (alone selected rest (d + 1)) := by
  simp [csSelect, always_cons, Bus.perform, locked, RecursiveMutex.takeRecursive, hP, Act.nest,
    selected]

/-- The inner `csDeselect` frees the mutex, whatever bracket is around it. -/
theorem always_csDeselect {rest : List Act} :
    Always step P (alone selected (csDeselect true ++ rest) d) ↔
      Always step P (alone .idle rest (d - 1)) := by
  simp [csDeselect, always_cons, Bus.perform, selected, RecursiveMutex.giveRecursive, hP, Act.nest,
    Bus.idle]

theorem always_unlock {rest : List Act} :
    Always step P (alone locked (unlock true ++ rest) d) ↔
      Always step P (alone .idle rest (d - 1)) := by
  simp [unlock, always_cons, Bus.perform, locked, RecursiveMutex.give, hP, Act.nest, Bus.idle]

end Walk

end Sys
end Spi
end PicoCppSdk
