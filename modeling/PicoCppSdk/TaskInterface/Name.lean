import PicoCppSdk.Mcp2515.Reg
import Mathlib.Data.List.Basic

/-!
# Name — the copy of the task name in the constructor of `TaskInterface`

The counter of the loop is a `uint8_t`, whatever `configMAX_TASK_NAME_LEN` is.  The array `name` is
memory from its address on, so that a store beyond its end would show.
-/

namespace PicoCppSdk
namespace TaskInterface

open Mcp2515 (Byte)

/-- The memory from an address on. -/
abbrev Memory := Nat → Byte

/-- The characters up to the terminating zero are `s`. -/
structure CString (mem : Memory) (s : List Byte) : Prop where
  chars : ∀ i (h : i < s.length), mem i = s[i]
  nonzero : 0#8 ∉ s
  terminated : mem s.length = 0#8

namespace CString

variable {mem : Memory} {s : List Byte}

theorem ne_zero (h : CString mem s) {i : Nat} (hi : i < s.length) : mem i ≠ 0#8 := by
  rw [h.chars i hi]
  exact fun hzero => h.nonzero (hzero ▸ List.getElem_mem hi)

theorem eq_length (h : CString mem s) {i : Nat} (hi : i ≤ s.length) (hzero : mem i = 0#8) :
    i = s.length :=
  (Nat.lt_or_eq_of_le hi).resolve_left fun hlt => h.ne_zero hlt hzero

end CString

/-! ## The constructor's loop -/

section Copy

variable (n : Nat) (pcName : Memory)

/-- The loop with the counter `i`, where `n` is `configMAX_TASK_NAME_LEN - 1`. -/
def copyLoop : Nat → BitVec 8 → Memory → Option Memory
  | 0, _, _ => none
  | fuel + 1, i, name =>
      if i.toNat < n then
        if pcName i.toNat = 0#8 then
          some (Function.update name i.toNat (pcName i.toNat))
        else
          copyLoop fuel (i + 1#8) (Function.update name i.toNat (pcName i.toNat))
      else
        some name

def copyName (fuel : Nat) (name : Memory) : Option Memory :=
  (copyLoop n pcName fuel 0#8 name).map fun name => Function.update name n 0#8

end Copy

variable {n : Nat} {pcName name : Memory} {s : List Byte}

/-- What the loop leaves when it has come from `i` to its end. -/
def copied (n : Nat) (pcName : Memory) (len i : Nat) (name : Memory) : Memory :=
  fun j => if i ≤ j ∧ j ≤ len ∧ j < n then pcName j else name j

theorem copied_next {len i : Nat} (hn : i < n) (hlen : i < len) :
    copied n pcName len (i + 1) (Function.update name i (pcName i)) =
      copied n pcName len i name := by
  funext j
  by_cases hj : j = i
  · subst hj
    simp [copied, hn, Nat.le_of_lt hlen]
  · have hle : i + 1 ≤ j ↔ i ≤ j := by omega
    simp only [copied, hle, Function.update_of_ne hj]

theorem copied_last {i : Nat} (hn : i < n) :
    Function.update name i (pcName i) = copied n pcName i i name := by
  funext j
  by_cases hj : j = i
  · subst hj
    simp [copied, hn]
  · rw [Function.update_of_ne hj, copied, if_neg]
    rintro ⟨hle, hge, -⟩
    exact hj (Nat.le_antisymm hge hle)

/-- As long as the counter does not wrap, the loop makes one turn for each character. -/
theorem copyLoop_eq (h : CString pcName s) (hfits : min n s.length ≤ 255) (fuel : Nat) :
    ∀ (i : BitVec 8) (name : Memory), i.toNat ≤ min n s.length →
      copyLoop n pcName fuel i name =
        if min n s.length - i.toNat < fuel then some (copied n pcName s.length i.toNat name)
        else none := by
  induction fuel with
  | zero => exact fun i name hi => rfl
  | succ fuel ih =>
      intro i name hi
      rw [Nat.le_min] at hi
      rw [copyLoop]
      by_cases hn : i.toNat < n
      · rw [if_pos hn]
        by_cases hzero : pcName i.toNat = 0#8
        · have hlast := h.eq_length hi.2 hzero
          rw [if_pos hzero, if_pos (by omega), ← hlast, copied_last hn]
        · have hlen : i.toNat < s.length :=
            (Nat.lt_or_eq_of_le hi.2).resolve_right fun heq => hzero (heq ▸ h.terminated)
          have hnext : (i + 1#8).toNat = i.toNat + 1 := by
            rw [BitVec.toNat_add]
            exact Nat.mod_eq_of_lt (by simp only [BitVec.toNat_ofNat]; omega)
          rw [if_neg hzero, ih (i + 1#8) _ (by omega), hnext, copied_next hn hlen]
          have hcount : min n s.length - (i.toNat + 1) < fuel ↔
              min n s.length - i.toNat < fuel + 1 := by omega
          simp only [hcount]
      · -- The array is full.
        have hsame : copied n pcName s.length i.toNat name = name := by
          funext j
          exact if_neg fun hj => hn (Nat.lt_of_le_of_lt hj.1 hj.2.2)
        rw [if_neg hn, if_pos (by omega), hsame]

/-- A counter that finds no zero before it wraps goes round for ever. -/
theorem copyLoop_eq_none (hn : 255 < n) (hlong : ∀ i ≤ 255, pcName i ≠ 0#8) (fuel : Nat) :
    ∀ (i : BitVec 8) (name : Memory), copyLoop n pcName fuel i name = none := by
  induction fuel with
  | zero => exact fun i name => rfl
  | succ fuel ih =>
      intro i name
      have hi : i.toNat ≤ 255 := Nat.le_of_lt_succ i.isLt
      rw [copyLoop, if_pos (Nat.lt_of_le_of_lt hi hn), if_neg (hlong _ hi)]
      exact ih _ _

/-! ## What is left in `name` -/

theorem copyName_eq (h : CString pcName s) (hfits : min n s.length ≤ 255) (fuel : Nat)
    (name : Memory) :
    copyName n pcName fuel name =
      if min n s.length < fuel then
        some (Function.update (copied n pcName s.length 0 name) n 0#8)
      else none := by
  rw [copyName, copyLoop_eq h hfits fuel 0#8 name (Nat.zero_le _)]
  exact apply_ite _ _ _ _

theorem cstring_copied (h : CString pcName s) :
    CString (Function.update (copied n pcName s.length 0 name) n 0#8) (s.take n) where
  chars i hi := by
    rw [List.length_take, Nat.lt_min] at hi
    rw [Function.update_of_ne (Nat.ne_of_lt hi.1), List.getElem_take, ← h.chars i hi.2]
    exact if_pos ⟨Nat.zero_le i, Nat.le_of_lt hi.2, hi.1⟩
  nonzero hzero := h.nonzero (List.mem_of_mem_take hzero)
  terminated := by
    rw [List.length_take]
    by_cases hlen : s.length < n
    · rw [Nat.min_eq_right (Nat.le_of_lt hlen), Function.update_of_ne (Nat.ne_of_lt hlen)]
      exact (if_pos ⟨Nat.zero_le _, Nat.le_refl _, hlen⟩).trans h.terminated
    · rw [Nat.min_eq_left (Nat.le_of_not_lt hlen), Function.update_self]

/-- The copy comes to an end exactly if `configMAX_TASK_NAME_LEN` is at most 256 or the name has
fewer than 256 characters; it leaves the name, cut off where the array ends, with a zero behind it,
and nothing is stored outside of the array. -/
theorem copyName_ends_iff (name : Memory) (h : CString pcName s) :
    ((∃ fuel result, copyName n pcName fuel name = some result) ↔ n ≤ 255 ∨ s.length ≤ 255) ∧
      ∀ fuel result, copyName n pcName fuel name = some result →
        CString result (s.take n) ∧ ∀ j, n < j → result j = name j := by
  have hfits : n ≤ 255 ∨ s.length ≤ 255 ↔ min n s.length ≤ 255 := min_le_iff.symm
  have hnever : ¬ min n s.length ≤ 255 → ∀ fuel, copyName n pcName fuel name = none := by
    intro hover fuel
    rw [copyName, copyLoop_eq_none (by omega) (fun i hi => h.ne_zero (by omega)), Option.map_none]
  refine ⟨⟨?_, ?_⟩, ?_⟩
  · rintro ⟨fuel, result, hresult⟩
    rw [hfits]
    by_contra hover
    rw [hnever hover] at hresult
    cases hresult
  · intro hle
    exact ⟨min n s.length + 1, _, (copyName_eq h (hfits.1 hle) _ _).trans
      (if_pos (Nat.lt_succ_self _))⟩
  · intro fuel result hresult
    by_cases hle : min n s.length ≤ 255
    · rw [copyName_eq h hle] at hresult
      split at hresult
      · cases hresult
        refine ⟨cstring_copied h, ?_⟩
        intro j hj
        rw [Function.update_of_ne (Nat.ne_of_gt hj)]
        exact if_neg fun hcopied => absurd hcopied.2.2 (Nat.lt_asymm hj)
      · cases hresult
    · rw [hnever hle] at hresult
      cases hresult

/-- A string constant in memory. -/
def inMemory (s : List Byte) : Memory := fun i => s.getD i 0#8

theorem cstring_inMemory (h : 0#8 ∉ s) : CString (inMemory s) s where
  chars i hi := by simp [inMemory, hi]
  nonzero := h
  terminated := by simp [inMemory]

/-- The name that `Mcp2515Task` passes, `"canService"`. -/
def canService : List Byte :=
  [0x63#8, 0x61#8, 0x6E#8, 0x53#8, 0x65#8, 0x72#8, 0x76#8, 0x69#8, 0x63#8, 0x65#8]

/-- With room for seven characters it becomes `"canServ"`. -/
theorem copyName_ends_iff_canService :
    ∃ fuel result, copyName 7 (inMemory canService) fuel (fun _ => 0xFF#8) = some result ∧
      CString result (canService.take 7) := by
  rcases copyName_ends_iff (n := 7) (fun _ => 0xFF#8)
    (cstring_inMemory (s := canService) (by decide)) with ⟨hends, hresult⟩
  rcases hends.2 (Or.inl (by decide)) with ⟨fuel, result, hcopy⟩
  exact ⟨fuel, result, hcopy, (hresult fuel result hcopy).1⟩

end TaskInterface
end PicoCppSdk
