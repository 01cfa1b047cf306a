import PicoCppSdk.Spi.Nesting

/-!
# Exclusion — which tasks exclude each other on the bus

As long as every task, seen alone, holds the mutex exactly while it has a bracket open, the tasks
exclude each other whatever the interleaving (`Owned`).  `exclusive_iff` says exactly for which
programs this is so.
-/

namespace PicoCppSdk
namespace Spi

open Transition

variable {ι : Type} [DecidableEq ι]

namespace Sys

variable {s t : Sys ι} {i j : ι}

/-! ## The owner of the bus -/

/-- Task `i` as it would be alone on the bus `v`. -/
def sight (s : Sys ι) (v : Bus Unit) (i : ι) : Sys Unit where
  bus := v
  thread _ := s.thread i

/-- The bus is idle, or it is as its holder sees it; the others see an idle bus. -/
inductive Owned (s : Sys ι) : Prop where
  | free (hbus : s.bus = .idle) (hall : ∀ i, Always step Fine (s.sight .idle i))
  | held (i : ι) (v : Bus Unit) (hbus : s.bus = v.rename fun _ => i) (hv : v.mutex ≠ none)
      (hself : Always step Fine (s.sight v i))
      (hothers : ∀ j, j ≠ i → Always step Fine (s.sight .idle j))

theorem eq_place {v : Bus Unit} (hbus : s.bus = v.rename fun _ => i) :
    s = place i (s.sight v i) s := by
  have hthread : s.thread = Function.update s.thread i (s.thread i) :=
    (Function.update_eq_self i _).symm
  exact congrArg₂ Sys.mk hbus hthread

theorem step_eq_place {v : Bus Unit} (hbus : s.bus = v.rename fun _ => i)
    (h : step i s = some t) : ∃ v', step () (s.sight v i) = some v' ∧ t = place i v' s := by
  rw [eq_place hbus, step_place] at h
  rcases Option.map_eq_some_iff.1 h with ⟨v', hv', ht⟩
  exact ⟨v', hv', ht.symm⟩

/-- A step of a task that sees the bus as it is. -/
theorem Owned.of_step {v : Bus Unit} (hbus : s.bus = v.rename fun _ => i)
    (hself : Always step Fine (s.sight v i))
    (hothers : ∀ j, j ≠ i → Always step Fine (s.sight .idle j)) (h : step i s = some t) :
    t.Owned := by
  rcases step_eq_place hbus h with ⟨v', hstep, rfl⟩
  have hfine : Always step Fine v' := hself.next hstep
  have hself' : ∀ w, v'.bus = w → Always step Fine ((place i v' s).sight w i) := by
    rintro w rfl
    have hv' : (place i v' s).sight v'.bus i = v' := by
      simp [sight]
    rwa [hv']
  have hothers' : ∀ j, j ≠ i → Always step Fine ((place i v' s).sight .idle j) := by
    intro j hj
    have hj' : (place i v' s).sight .idle j = s.sight .idle j := by
      simp [sight, place_thread_of_ne hj]
    rw [hj']
    exact hothers j hj
  by_cases hmutex : v'.bus.mutex = none
  -- Either the step has freed the bus, or task `i` has it now.
  · have hidle := (hfine.now.released hmutex).1
    refine .free ?_ fun j => ?_
    · simp [place, hidle]
    · by_cases hj : j = i
      · subst hj
        exact hself' .idle hidle
      · exact hothers' j hj
  · exact .held i v'.bus rfl hmutex (hself' _ rfl) hothers'

/-- Where the bus is held by `i`, any other task is at the end or about to open a bracket. -/
theorem not_step_of_held {v : Bus Unit} (hbus : s.bus = v.rename fun _ => i)
    (hv : v.mutex ≠ none) (hj : j ≠ i) (hopening : s.Opening j) : step j s = none := by
  rcases hopening with ⟨a, as, htodo, hopens⟩
  have hmutex : ∃ count, s.bus.mutex = some (i, count) := by
    rcases Option.ne_none_iff_exists'.1 hv with ⟨h, hh⟩
    exact ⟨h.2, by rw [hbus, Bus.rename, hh]; rfl⟩
  rcases hmutex with ⟨count, hmutex⟩
  have hblocked : s.bus.perform j a = none := by
    cases a with
    | take => simp [Bus.perform, hmutex, RecursiveMutex.take]
    | takeRecursive => simp [Bus.perform, hmutex, RecursiveMutex.takeRecursive, hj.symm]
    | _ => exact hopens.elim
  simp [step, htodo, hblocked]

theorem step_none_of_held {v : Bus Unit} (hbus : s.bus = v.rename fun _ => i)
    (hv : v.mutex ≠ none) (hj : j ≠ i) (hsight : Fine (s.sight .idle j)) : step j s = none := by
  rcases hsight.opens rfl with hdone | hopening
  · have htodo : (s.thread j).todo = [] := hdone
    simp [step, htodo]
  · exact not_step_of_held hbus hv hj hopening

theorem Owned.step (hs : s.Owned) (h : Sys.step j s = some t) : t.Owned := by
  cases hs with
  | free hbus hall => exact .of_step (v := .idle) hbus (hall j) (fun k _ => hall k) h
  | held i v hbus hv hself hothers =>
      by_cases hj : j = i
      · subst hj
        exact .of_step hbus hself hothers h
      · rw [step_none_of_held hbus hv hj (hothers j hj).now] at h
        cases h

theorem Owned.exclusive (hs : s.Owned) : s.Exclusive := by
  cases hs with
  | free hbus hall =>
      refine ⟨fun i j t _ hdepth => ?_, fun i hwait => ?_⟩
      · exact absurd ((hall i).now.released rfl).2 (Nat.ne_of_gt hdepth)
      · rcases hwait with ⟨⟨count, hmutex⟩, _⟩
        rw [hbus] at hmutex
        cases hmutex
  | held o v hbus hv hself hothers =>
      refine ⟨fun i j t hij hdepth hopening hstep => ?_, fun i hwait => ?_⟩
      · -- Only the holder has a bracket open, and so the other task is blocked.
        have hi : i = o := by
          by_contra hne
          exact absurd ((hothers i hne).now.released rfl).2 (Nat.ne_of_gt hdepth)
        have hj : j ≠ o := hi ▸ hij.symm
        rw [not_step_of_held hbus hv hj hopening] at hstep
        cases hstep
      · have hplace := eq_place hbus
        rw [hplace] at hwait
        have hi : i = o := (holds_place.1 hwait.1).1
        subst hi
        exact hself.now.noSelfWait (selfWaits_place.1 hwait)

omit [DecidableEq ι] in
theorem owned_start {script : ι → Script true} (h : ∀ i, (script i).Flat) :
    (start script).Owned :=
  .free rfl fun i => always_fine_of_flat (h i)

omit [DecidableEq ι] in
theorem Owned.quiet (hs : s.Owned) : s.bus.fired = false := by
  cases hs with
  | free hbus _ => rw [hbus]; rfl
  | held o v hbus hv hself _ => rw [hbus]; exact hself.now.quiet

/-- Tasks with flat programs exclude each other, and no assertion of `csSelect` or `csDeselect`
fails. -/
theorem exclusive_of_flat {script : ι → Script true} (h : ∀ i, (script i).Flat)
    (hrun : Reachable step (start script) t) : t.Exclusive ∧ t.bus.fired = false := by
  have howned : t.Owned := hrun.invariant (fun _ _ _ hs hstep => hs.step hstep) (owned_start h)
  exact ⟨howned.exclusive, howned.quiet⟩

/-! ## One task -/

theorem exclusive_of_lone {script : ι → Script true} (hlone : ∀ j, j ≠ i → (script j).IsDone)
    (hcalm : ¬ (script i).SelfLocks) (hrun : Reachable step (start script) t) : t.Exclusive := by
  have hdone : ∀ j, j ≠ i → ((start script).thread j).todo = [] := by
    intro j hj
    exact Script.code_of_isDone (hlone j hj)
  rw [start_eq_place script i] at hrun
  rcases of_reachable_place hdone hrun with ⟨v, hv, rfl⟩
  have hself : ¬ v.SelfWaits () := always_calm_iff.2 hcalm v hv
  refine ⟨fun k j t hkj hdepth hopening => ?_, fun k hwait => ?_⟩
  · have hk : k = i := by
      by_contra hne
      rw [place_thread_of_ne hne] at hdepth
      exact absurd hdepth (Nat.lt_irrefl 0)
    have hj : j ≠ i := hk ▸ hkj.symm
    rcases hopening with ⟨a, as, htodo, _⟩
    rw [place_thread_of_ne hj, hdone j hj] at htodo
    cases htodo
  · have hk : k = i := (holds_place.1 hwait.1).1
    subst hk
    exact hself (selfWaits_place.1 hwait)

/-! ## Unsafe programs -/

theorem not_exclusive_of_selfLocks {script : ι → Script true} (h : (script i).SelfLocks) :
    ∃ t, Reachable step (start script) t ∧ ¬ t.Exclusive := by
  have hnot : ¬ Always step Calm (alone .idle (script i).code 0) :=
    fun hcalm => always_calm_iff.1 hcalm h
  rcases Always.exists_of_not hnot with ⟨v, hv, hwait⟩
  refine ⟨place i v (start script), ?_, fun hexcl => ?_⟩
  · have hplaced := reachable_place (i := i) (start script) hv
    rwa [← start_unit, ← start_eq_place] at hplaced
  · exact hwait fun hself => hexcl.noSelfWait i (selfWaits_place.2 hself)

/-- A task that leaves the mutex free inside a bracket lets the next one in. -/
theorem not_exclusive_of_nested {script : ι → Script true} (h : ¬ (script i).Flat) (hij : i ≠ j)
    (hj : ¬ (script j).IsDone) : ∃ t, Reachable step (start script) t ∧ ¬ t.Exclusive := by
  -- By itself, task `i` comes to a point where a bracket is open and the mutex free, or where it
  -- waits for itself.
  have hnot : ¬ Always step Kept (alone .idle (script i).code 0) := by
    intro hkept
    rw [← List.append_nil (script i).code] at hkept
    exact h (flat_of_always_kept hkept).1
  rcases Always.exists_of_not hnot with ⟨v, hv, hbad⟩
  have hreach : Reachable step (start script) (place i v (start script)) := by
    have hplaced := reachable_place (i := i) (start script) hv
    rwa [← start_unit, ← start_eq_place] at hplaced
  refine ⟨place i v (start script), hreach, fun hexcl => hbad ⟨fun hfree => ?_, fun hself => ?_⟩⟩
  · by_contra hdepth
    -- Task `j` has not begun, and its program starts with a take.
    have hthread : (place i v (start script)).thread j = ⟨(script j).code, 0⟩ :=
      place_thread_of_ne hij.symm
    rcases (script j).code_opens with hnil | ⟨a, as, hcode, hopens⟩
    · exact hj (Script.isDone_of_code hnil)
    · have hmutex : (place i v (start script)).bus.mutex = none := by
        simp [place, Bus.rename, RecursiveMutex.rename, hfree]
      have hopening : (place i v (start script)).Opening j :=
        ⟨a, as, by rw [hthread, hcode], hopens⟩
      have hstep : ∃ t, step j (place i v (start script)) = some t := by
        cases a with
        | take =>
            simp [step, hthread, hcode, Bus.perform, hmutex, RecursiveMutex.take]
        | takeRecursive =>
            simp [step, hthread, hcode, Bus.perform, hmutex, RecursiveMutex.takeRecursive]
        | _ => exact hopens.elim
      rcases hstep with ⟨t, ht⟩
      have hopen : 0 < ((place i v (start script)).thread i).depth := by
        rw [place_thread_self]
        exact Nat.pos_of_ne_zero hdepth
      exact hexcl.keptOut i j t hij hopen hopening ht
  · exact hexcl.noSelfWait i (selfWaits_place.2 hself)

/-- One task nests as `setFilter` does, the other only selects. -/
def nestedAndPlain : Bool → Script true
  | false => .lock (.cs .done .done) .done
  | true => .cs .done .done

/-- After its first inner bracket the nesting task still has `lock` open, and the other one gets
past `csSelect`. -/
theorem not_exclusive : ¬ ∀ t, Reachable step (start nestedAndPlain) t → t.Exclusive := by
  intro h
  rcases exists_run_of_exec step Free (start nestedAndPlain) (List.replicate 9 false)
    (fun t => 0 < (t.thread false).depth ∧
      (t.thread true).todo = (nestedAndPlain true).code ∧ (step true t).isSome) (by decide)
    with ⟨t, hrun, hP⟩
  rcases of_decide_eq_true hP with ⟨hdepth, htodo, hsome⟩
  rcases Option.isSome_iff_exists.1 hsome with ⟨u, hu⟩
  have hopening : t.Opening true := ⟨.takeRecursive, _, htodo, trivial⟩
  exact (h t ⟨_, hrun⟩).keptOut false true u (by decide) hdepth hopening hu

/-! ## The criterion -/

/-- The tasks exclude each other, and none waits for its own mutex, in every interleaving exactly if
no program nests brackets, or if a single task uses the bus and no `lock` of it comes right after
the `lock` or `csSelect` around it. -/
theorem exclusive_iff (script : ι → Script true) :
    (∀ t, Reachable step (start script) t → t.Exclusive) ↔
      (∀ i, (script i).Flat) ∨
        (∀ i j, ¬ (script i).IsDone → ¬ (script j).IsDone → i = j) ∧
          ∀ i, ¬ (script i).SelfLocks := by
  constructor
  · intro h
    by_contra hcond
    simp only [not_or, not_and_or, not_forall] at hcond
    rcases hcond with ⟨⟨i, hflat⟩, hmany | ⟨k, hself⟩⟩
    · -- One of two tasks that use the bus is not the nested one.
      have hother : ∃ j, i ≠ j ∧ ¬ (script j).IsDone := by
        rcases hmany with ⟨j, k, hj, hk, hjk⟩
        by_cases hij : i = j
        · exact ⟨k, hij ▸ hjk, hk⟩
        · exact ⟨j, hij, hj⟩
      rcases hother with ⟨j, hij, hj⟩
      rcases not_exclusive_of_nested hflat hij hj with ⟨t, ht, hnot⟩
      exact hnot (h t ht)
    · rcases not_exclusive_of_selfLocks (not_not.1 hself) with ⟨t, ht, hnot⟩
      exact hnot (h t ht)
  · rintro (hflat | ⟨hlone, hcalm⟩) t ht
    · exact (exclusive_of_flat hflat ht).1
    · by_cases hall : ∀ i, (script i).IsDone
      · exact (exclusive_of_flat (fun i => Script.flat_of_isDone (hall i)) ht).1
      · rcases not_forall.1 hall with ⟨i, hi⟩
        have hothers : ∀ j, j ≠ i → (script j).IsDone := by
          intro j hj
          by_contra hne
          exact hj (hlone j i hne hi)
        exact exclusive_of_lone hothers (hcalm i) ht

end Sys
end Spi
end PicoCppSdk
