import Mathlib.Logic.Function.Basic

/-!
# RecursiveMutex — a mutex with two take/give disciplines

A recursive mutex of FreeRTOS has a holder and a recursion count.  `takeRecursive` and
`giveRecursive` move the count; the plain `take` and `give` know nothing of it: a plain `take`
leaves the count at 0, and a plain `give` frees the mutex whoever calls it.
-/

universe u v

/-- The holder and its recursion count; `none` while the mutex is free. -/
abbrev RecursiveMutex (ι : Type u) := Option (ι × BitVec 32)

namespace RecursiveMutex

variable {ι : Type u} {κ : Type v}

/-- `xSemaphoreTake` with no timeout; `none` while the call blocks. -/
def take (i : ι) : RecursiveMutex ι → Option (RecursiveMutex ι)
  | none => some (some (i, 0#32))
  | some _ => none

/-- `xSemaphoreGive`. -/
def give : RecursiveMutex ι → RecursiveMutex ι
  | _ => none

/-- `xSemaphoreTakeRecursive` with no timeout; `none` while the call blocks. -/
def takeRecursive [DecidableEq ι] (i : ι) : RecursiveMutex ι → Option (RecursiveMutex ι)
  | none => some (some (i, 1#32))
  | some (j, count) => if j = i then some (some (j, count + 1#32)) else none

/-- `xSemaphoreGiveRecursive`; it fails, without effect, for a task that is not the holder. -/
def giveRecursive [DecidableEq ι] (i : ι) : RecursiveMutex ι → RecursiveMutex ι
  | none => none
  | some (j, count) =>
      if j = i then
        if count - 1#32 = 0#32 then none else some (j, count - 1#32)
      else
        some (j, count)

/-! ## Renaming the tasks -/

/-- The mutex with the tasks renamed. -/
def rename (f : ι → κ) (m : RecursiveMutex ι) : RecursiveMutex κ :=
  m.map fun h => (f h.1, h.2)

theorem take_rename (f : ι → κ) (i : ι) (m : RecursiveMutex ι) :
    take (f i) (m.rename f) = (take i m).map (rename f) := by
  cases m <;> rfl

section Recursive

variable [DecidableEq ι] [DecidableEq κ]

theorem takeRecursive_rename {f : ι → κ} (hf : Function.Injective f) (i : ι)
    (m : RecursiveMutex ι) :
    takeRecursive (f i) (m.rename f) = (takeRecursive i m).map (rename f) := by
  cases m with
  | none => rfl
  | some h =>
      by_cases hi : h.1 = i
      · simp [rename, takeRecursive, hi]
      · have hfi : f h.1 ≠ f i := hf.ne hi
        simp [rename, takeRecursive, hi, hfi]

theorem giveRecursive_rename {f : ι → κ} (hf : Function.Injective f) (i : ι)
    (m : RecursiveMutex ι) :
    giveRecursive (f i) (m.rename f) = (giveRecursive i m).rename f := by
  cases m with
  | none => rfl
  | some h =>
      by_cases hi : h.1 = i
      · simp only [rename, giveRecursive, hi, Option.map_some, if_true]
        split <;> rfl
      · have hfi : f h.1 ≠ f i := hf.ne hi
        simp [rename, giveRecursive, hi, hfi]

end Recursive

end RecursiveMutex
