import Mathlib.Data.List.Count

/-!
# Ledger — a resource that one owner obtains and releases under reusable names

A kernel hands out resources under names (descriptors, task handles) and hands a name out again
once it has been released.  The history of an owner, newest entry first, says which names it has
been handed and which it has released.  An owner that holds at most one resource at a time
*settles* its history when every name has been released as often as it was obtained, but for the
one it holds.
-/

namespace Ledger

universe u

inductive Entry (H : Type u) where
  | acquire (h : H)
  | release (h : H)
  deriving DecidableEq

variable {H : Type u} [DecidableEq H]

/-- How often the owner was handed `h`. -/
def obtained (h : H) (es : List (Entry H)) : Nat :=
  es.count (.acquire h)

/-- How often the owner released `h`. -/
def released (h : H) (es : List (Entry H)) : Nat :=
  es.count (.release h)

/-- The history of an owner that now holds `cur`: no name is leaked, and none is released twice. -/
def Settles (es : List (Entry H)) (cur : Option H) : Prop :=
  ∀ h, obtained h es = released h es + if cur = some h then 1 else 0

section Counts

variable (h k : H) (es : List (Entry H))

@[simp] theorem obtained_acquire :
    obtained h (.acquire k :: es) = obtained h es + if k = h then 1 else 0 := by
  simp [obtained, List.count_cons]

@[simp] theorem obtained_release : obtained h (.release k :: es) = obtained h es := by
  simp [obtained]

@[simp] theorem released_acquire : released h (.acquire k :: es) = released h es := by
  simp [released]

@[simp] theorem released_release :
    released h (.release k :: es) = released h es + if k = h then 1 else 0 := by
  simp [released, List.count_cons]

end Counts

namespace Settles

variable {h k : H} {es : List (Entry H)} {cur cur' : Option H}

theorem nil : Settles ([] : List (Entry H)) none := by
  intro h
  rfl

theorem acquire (hs : Settles es none) (h : H) : Settles (.acquire h :: es) (some h) := by
  intro k
  have hk := hs k
  simp only [reduceCtorEq, if_false, Nat.add_zero] at hk
  simp [hk]

theorem release (hs : Settles es (some h)) : Settles (.release h :: es) none := by
  intro k
  have hk := hs k
  simp only [Option.some.injEq] at hk
  simp [hk]

/-- A history settles for one holding only. -/
theorem unique (hs : Settles es cur) (hs' : Settles es cur') : cur = cur' := by
  apply Option.ext
  intro h
  have heq := (hs h).symm.trans (hs' h)
  have hsame : (if cur = some h then 1 else 0) = if cur' = some h then 1 else 0 :=
    Nat.add_left_cancel heq
  by_cases hc : cur = some h
  · by_cases hc' : cur' = some h
    · exact iff_of_true hc hc'
    · simp [hc, hc'] at hsame
  · by_cases hc' : cur' = some h
    · simp [hc, hc'] at hsame
    · exact iff_of_false hc hc'

/-- Nothing is released more often than it was obtained. -/
theorem released_le (hs : Settles es cur) (h : H) : released h es ≤ obtained h es :=
  (hs h).symm ▸ Nat.le_add_right _ _

/-- An owner that holds nothing has released all that it obtained. -/
theorem released_eq (hs : Settles es none) (h : H) : released h es = obtained h es := by
  have hh := hs h
  simpa using hh.symm

/-- After the release of a name that is not held, the name is overdrawn. -/
theorem overdrawn (hs : Settles es cur) (hcur : cur ≠ some h) :
    obtained h (.release h :: es) < released h (.release h :: es) := by
  have hh := hs h
  rw [if_neg hcur] at hh
  simp [hh]

/-- Whoever obtains a resource while it holds another one leaks that. -/
theorem not_acquire (hs : Settles es (some h)) : ¬ Settles (.acquire k :: es) (some k) := by
  intro hs'
  have hh := hs h
  have hh' := hs' h
  rw [if_pos rfl] at hh
  rw [obtained_acquire, released_acquire, hh] at hh'
  have hbad : 1 + (if k = h then 1 else 0) = if some k = some h then 1 else 0 := by
    rw [Nat.add_assoc] at hh'
    exact Nat.add_left_cancel hh'
  by_cases hk : k = h
  · simp [hk] at hbad
  · simp [hk] at hbad

end Settles
end Ledger
