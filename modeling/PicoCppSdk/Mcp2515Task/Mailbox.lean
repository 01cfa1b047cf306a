import PicoCppSdk.Mcp2515Task.Footprint

/-!
# Mailbox — where a received frame is, and how many tokens stand for it

A frame that waits in a receive buffer is at one of four places: its flag in `CANINTF` is set,
`canService` is between clearing the flag and setting the bit of `_pendingRxBuf`, the bit is set,
or the reader is inside the read of the buffer.  The tokens of `_rxSemaphore`, those that
`canService` has still to give and the one that a reader holds are as many as there are set bits.
-/

namespace PicoCppSdk
namespace Mcp2515Task

open Atomic Mcp2515 Transition

variable {s t : Sys}

/-! ## The two buffers -/

/-- The index of a buffer's bit, in `CANINTF` and in `_pendingRxBuf`. -/
def index : RxBuf → Nat
  | .b0 => 0
  | .b1 => 1

instance decidableForallRxBuf {p : RxBuf → Prop} [∀ n, Decidable (p n)] : Decidable (∀ n, p n) :=
  decidable_of_iff (p .b0 ∧ p .b1) ⟨fun h n => by cases n; exacts [h.1, h.2], fun h => ⟨h _, h _⟩⟩

theorem b0_beq_b1 : (RxBuf.b0 == RxBuf.b1) = false := rfl

theorem b1_beq_b0 : (RxBuf.b1 == RxBuf.b0) = false := rfl

/-- `canService` serves `b0` before `b1`. -/
def before : RxBuf → RxBuf → Bool
  | .b0, .b1 => true
  | _, _ => false

theorem test_rxFlag (x : Byte) (n : RxBuf) : x &&& rxFlag n ≠ 0#8 ↔ x.getLsbD (index n) = true := by
  cases n with
  | b0 => exact and_bit0 x
  | b1 => exact and_bit1 x

theorem not_test {f m : Byte} {i : Nat} (h : f &&& m ≠ 0#8 ↔ f.getLsbD i = true)
    (hf : ¬ f &&& m ≠ 0#8) : f.getLsbD i = false :=
  Bool.eq_false_iff.2 fun hbit => hf (h.2 hbit)

theorem getLsbD_rxFlag_index (n m : RxBuf) : (rxFlag n).getLsbD (index m) = decide (n = m) := by
  cases n <;> cases m <;> decide

theorem getLsbD_bit_index (n m : RxBuf) : (bit n).getLsbD (index m) = decide (n = m) := by
  cases n <;> cases m <;> decide

/-! ## What the control points mean -/

namespace RunPc

/-- The flag of `n` is cleared, its bit is not yet set. -/
def taking (n : RxBuf) : RunPc → Bool
  | .rxLoad m _ => m == n
  | .rxStore m _ _ => m == n
  | _ => false

/-- A flag of `n` that `canService` has read and will clear. -/
def sawRx (n : RxBuf) : RunPc → Bool
  | .stampLoad f => f.getLsbD (index n)
  | .stampStore f _ => f.getLsbD (index n)
  | .rxClear m f => m == n || (before m n && f.getLsbD (index n))
  | .rxLoad m f => before m n && f.getLsbD (index n)
  | .rxStore m f _ => before m n && f.getLsbD (index n)
  | _ => false

/-- The bit of `n` is set, the token for it is not yet given. -/
def owes (n : RxBuf) : RunPc → Bool
  | .rxClear m f => before n m && f.getLsbD (index n)
  | .rxLoad m f => before n m && f.getLsbD (index n)
  | .rxStore m f _ => before n m && f.getLsbD (index n)
  | .txClear f => f.getLsbD (index n)
  | .txLoad f => f.getLsbD (index n)
  | .txStore f _ => f.getLsbD (index n)
  | .rxGive m f => m == n || (before m n && f.getLsbD (index n))
  | _ => false

/-- The buffer that is being taken over is one whose flag was read. -/
def named : RunPc → Bool
  | .rxClear n f => f.getLsbD (index n)
  | .rxLoad n f => f.getLsbD (index n)
  | .rxStore n f _ => f.getLsbD (index n)
  | _ => true

/-- A point at which no buffer is being taken over: `saw` bounds the flags read before, `owed` says
for which buffers a token is still to be given. -/
structure Serving (saw owed : RxBuf → Bool) (p : RunPc) : Prop where
  taking : ∀ n, p.taking n = false
  saw : ∀ n, p.sawRx n = true → saw n = true
  owes : ∀ n, p.owes n = owed n
  named : p.named = true

/-- Outside the normal branch nothing is under way. -/
abbrev Idle : RunPc → Prop :=
  Serving (fun _ => false) (fun _ => false)

/-- The control points outside the normal branch, and its last one. -/
def apart : RunPc → Bool
  | .stampLoad _ => false
  | .stampStore _ _ => false
  | .rxClear _ _ => false
  | .rxLoad _ _ => false
  | .rxStore _ _ _ => false
  | .txClear _ => false
  | .txLoad _ => false
  | .txStore _ _ => false
  | .rxGive _ _ => false
  | _ => true

theorem idle_of_apart {p : RunPc} (h : p.apart = true) : p.Idle := by
  cases p with
  | stampLoad f => cases h
  | stampStore f now => cases h
  | rxClear n f => cases h
  | rxLoad n f => cases h
  | rxStore n f v => cases h
  | txClear f => cases h
  | txLoad f => cases h
  | txStore f v => cases h
  | rxGive n f => cases h
  | _ => exact ⟨fun _ => rfl, nofun, fun _ => rfl, rfl⟩

section Continuations

variable {f : Byte} {saw owed saw' owed' : RxBuf → Bool} {p : RunPc}

theorem Serving.congr (h : Serving saw owed p) (hsaw : ∀ n, saw n = true → saw' n = true)
    (howed : ∀ n, owed n = owed' n) : Serving saw' owed' p :=
  ⟨h.taking, fun n hn => hsaw n (h.saw n hn), fun n => (h.owes n).trans (howed n), h.named⟩

/-- The token of `b1`, if its flag was read. -/
def owedOne (f : Byte) : RxBuf → Bool
  | .b0 => false
  | .b1 => f.getLsbD 1

/-- The token of `b0`, if its flag was read. -/
def owedZero (f : Byte) : RxBuf → Bool
  | .b0 => f.getLsbD 0
  | .b1 => false

variable (f)

theorem serving_fromGiveTx : Idle (goto (fromGiveTx f)) :=
  goto_fromGiveTx_of (idle_of_apart rfl) (idle_of_apart rfl)

theorem serving_fromGive1 : Serving (fun _ => false) (owedOne f) (goto (fromGive1 f)) := by
  rw [goto_fromGive1]
  split
  · rename_i hf
    have hbit : f.getLsbD 1 = true := (and_bit1 f).1 hf
    refine ⟨fun _ => rfl, nofun, ?_, rfl⟩
    intro n
    cases n with
    | b0 => rfl
    | b1 => exact hbit.symm
  · rename_i hf
    have hbit : f.getLsbD 1 = false := not_test (and_bit1 f) hf
    refine (serving_fromGiveTx f).congr (fun _ => id) ?_
    intro n
    cases n with
    | b0 => rfl
    | b1 => exact hbit.symm

theorem serving_fromGive0 :
    Serving (fun _ => false) (fun n => f.getLsbD (index n)) (goto (fromGive0 f)) := by
  rw [goto_fromGive0]
  split
  · rename_i hf
    have hbit : f.getLsbD 0 = true := (and_bit0 f).1 hf
    refine ⟨fun _ => rfl, nofun, ?_, rfl⟩
    intro n
    cases n with
    | b0 => exact hbit.symm
    | b1 => rfl
  · rename_i hf
    have hbit : f.getLsbD 0 = false := not_test (and_bit0 f) hf
    refine (serving_fromGive1 f).congr (fun _ => id) ?_
    intro n
    cases n with
    | b0 => exact hbit.symm
    | b1 => rfl

theorem serving_fromTx :
    Serving (fun _ => false) (fun n => f.getLsbD (index n)) (goto (fromTx f)) := by
  rw [goto_fromTx]
  split
  · exact ⟨fun _ => rfl, nofun, fun _ => rfl, rfl⟩
  · exact serving_fromGive0 f

theorem serving_fromRx1 : Serving (owedOne f) (owedZero f) (goto (fromRx1 f)) := by
  rw [goto_fromRx1]
  split
  · rename_i hf
    have hbit : f.getLsbD 1 = true := (and_bit1 f).1 hf
    refine ⟨fun _ => rfl, ?_, ?_, hbit⟩
    · intro n hn
      cases n with
      | b0 => cases hn
      | b1 => exact hbit
    · intro n
      cases n <;> rfl
  · rename_i hf
    have hbit : f.getLsbD 1 = false := not_test (and_bit1 f) hf
    refine (serving_fromTx f).congr nofun ?_
    intro n
    cases n with
    | b0 => rfl
    | b1 => exact hbit

theorem serving_fromRx0 :
    Serving (fun n => f.getLsbD (index n)) (fun _ => false) (goto (fromRx0 f)) := by
  rw [goto_fromRx0]
  split
  · rename_i hf
    have hbit : f.getLsbD 0 = true := (and_bit0 f).1 hf
    refine ⟨fun _ => rfl, ?_, ?_, hbit⟩
    · intro n hn
      cases n with
      | b0 => exact hbit
      | b1 => exact hn
    · intro n
      cases n <;> rfl
  · rename_i hf
    have hbit : f.getLsbD 0 = false := not_test (and_bit0 f) hf
    refine (serving_fromRx1 f).congr ?_ ?_
    · intro n hn
      cases n with
      | b0 => cases hn
      | b1 => exact hn
    · intro n
      cases n with
      | b0 => exact hbit
      | b1 => rfl

theorem serving_fromStamp :
    Serving (fun n => f.getLsbD (index n)) (fun _ => false) (goto (fromStamp f)) := by
  rw [goto_fromStamp]
  split
  · exact ⟨fun _ => rfl, fun _ => id, fun _ => rfl, rfl⟩
  · exact serving_fromRx0 f

/-- Behind the store for `n` the token for `n` is owed. -/
theorem serving_afterRx {n : RxBuf} (hf : f.getLsbD (index n) = true) :
    Serving (fun m => before n m && f.getLsbD (index m))
      (fun m => n == m || (before m n && f.getLsbD (index m))) (goto (afterRx n f)) := by
  cases n with
  | b0 =>
      refine (serving_fromRx1 f).congr ?_ ?_
      · intro m hm
        cases m with
        | b0 => cases hm
        | b1 => exact hm
      · intro m
        cases m with
        | b0 => exact hf
        | b1 => rfl
  | b1 =>
      refine (serving_fromTx f).congr nofun ?_
      intro m
      cases m with
      | b0 => rfl
      | b1 => exact hf

/-- Behind the give for `n` it is not. -/
theorem serving_afterGive (n : RxBuf) :
    Serving (fun _ => false) (fun m => before n m && f.getLsbD (index m))
      (goto (afterGive n f)) := by
  cases n with
  | b0 =>
      refine (serving_fromGive1 f).congr (fun _ => id) ?_
      intro m
      cases m <;> rfl
  | b1 =>
      refine (serving_fromGiveTx f).congr (fun _ => id) ?_
      intro m
      cases m <;> rfl

end Continuations

end RunPc

namespace ReadPc

/-- Between the wait for `_rxSemaphore` and the store that clears a bit: the call holds a token. -/
def holds : ReadPc → Bool
  | .stamp _ => true
  | .test _ _ => true
  | .load _ _ _ => true
  | .store _ _ _ _ => true
  | _ => false

/-- The call has chosen buffer `n` and will clear its bit. -/
def chose (n : RxBuf) : ReadPc → Bool
  | .load m _ _ => m == n
  | .store m _ _ _ => m == n
  | _ => false

/-- Inside the read of buffer `n`. -/
def reads (n : RxBuf) : ReadPc → Bool
  | .reading m _ _ _ => m == n
  | _ => false

/-- About to choose a buffer. -/
def tests : ReadPc → Bool
  | .test _ _ => true
  | _ => false

/-- The call has chosen buffer `n`. -/
def picked (n : RxBuf) : ReadPc → Bool
  | .load m _ _ => m == n
  | .store m _ _ _ => m == n
  | .reading m _ _ _ => m == n
  | _ => false

end ReadPc

/-! ## The invariant of the counts -/

/-- The counts, on the parts of the state that they depend on: `full n` says that buffer `n` holds a
frame that has not been returned. -/
structure RxCounts (intf : Byte) (pc : RunPc) (mask : Byte) (sem : Nat) (rdr : Option ReadPc)
    (full : RxBuf → Bool) : Prop where
  seen : ∀ n, pc.sawRx n = true → intf.getLsbD (index n) = true
  named : pc.named = true
  place : ∀ n, (intf.getLsbD (index n)).toNat + (pc.taking n).toNat +
    (mask.getLsbD (index n)).toNat + (rdr.any (ReadPc.reads n)).toNat = (full n).toNat
  tokens : sem + (pc.owes .b0).toNat + (pc.owes .b1).toNat + (rdr.any ReadPc.holds).toNat =
    (mask.getLsbD 0).toNat + (mask.getLsbD 1).toNat
  chosen : ∀ n, rdr.any (ReadPc.chose n) = true → mask.getLsbD (index n) = true

namespace RxCounts

variable {intf mask : Byte} {pc : RunPc} {sem : Nat} {rdr : Option ReadPc} {full : RxBuf → Bool}
  {saw owed : RxBuf → Bool}

/-- `canService` goes on from a point at which no buffer is being taken over to another one. -/
theorem goTo (h : RxCounts intf pc mask sem rdr full) (hpc : ∀ n, pc.taking n = false)
    (howes : ∀ n, pc.owes n = owed n) (hsaw : ∀ n, saw n = true → intf.getLsbD (index n) = true)
    {pc' : RunPc} (hpc' : pc'.Serving saw owed) : RxCounts intf pc' mask sem rdr full := by
  refine ⟨fun n hn => hsaw n (hpc'.saw n hn), hpc'.named, ?_, ?_, h.chosen⟩
  · intro n
    have hplace := h.place n
    rw [hpc n] at hplace
    rw [hpc'.taking n]
    exact hplace
  · have htokens := h.tokens
    rw [howes .b0, howes .b1] at htokens
    rw [hpc'.owes .b0, hpc'.owes .b1]
    exact htokens

/-- The case that nothing is under way, before and after. -/
theorem toIdle (h : RxCounts intf pc mask sem rdr full) (hpc : pc.Idle) {pc' : RunPc}
    (hpc' : pc'.Idle) : RxCounts intf pc' mask sem rdr full :=
  h.goTo hpc.taking hpc.owes (fun _ hn => Bool.noConfusion hn) hpc'

/-- Other flags of `CANINTF` may change. -/
theorem setIntf (h : RxCounts intf pc mask sem rdr full) {intf' : Byte}
    (hintf : ∀ n, intf'.getLsbD (index n) = intf.getLsbD (index n)) :
    RxCounts intf' pc mask sem rdr full := by
  refine ⟨?_, h.named, ?_, h.tokens, h.chosen⟩
  · intro n hn
    rw [hintf n]
    exact h.seen n hn
  · intro n
    rw [hintf n]
    exact h.place n

/-- The reader moves on inside a call. -/
theorem setReader (h : RxCounts intf pc mask sem rdr full) {rdr' : Option ReadPc}
    (hreads : ∀ n, rdr'.any (ReadPc.reads n) = rdr.any (ReadPc.reads n))
    (hholds : rdr'.any ReadPc.holds = rdr.any ReadPc.holds)
    (hchosen : ∀ n, rdr'.any (ReadPc.chose n) = true → mask.getLsbD (index n) = true) :
    RxCounts intf pc mask sem rdr' full := by
  refine ⟨h.seen, h.named, ?_, hholds ▸ h.tokens, hchosen⟩
  intro n
  rw [hreads n]
  exact h.place n

/-- `bitModify(CANINTF, RXnIF, 0)`. -/
theorem clear {n : RxBuf} {f : Byte} (h : RxCounts intf (.rxClear n f) mask sem rdr full) :
    RxCounts (intf &&& ~~~rxFlag n ||| 0#8 &&& rxFlag n) (.rxLoad n f) mask sem rdr full := by
  have hflag : intf.getLsbD (index n) = true := h.seen n (by simp [RunPc.sawRx])
  refine ⟨?_, h.named, ?_, h.tokens, h.chosen⟩
  · intro m hm
    have hne : n ≠ m := by
      rintro rfl
      -- The other flag is still to be served, and this clear does not touch it.
      cases n <;> cases hm
    have hm' : intf.getLsbD (index m) = true := by
      apply h.seen
      simpa [RunPc.sawRx, hne] using hm
    rw [getLsbD_clear, getLsbD_rxFlag_index, hm']
    simp [hne]
  · intro m
    have hplace := h.place m
    rw [getLsbD_clear, getLsbD_rxFlag_index]
    by_cases hm : n = m
    · subst hm
      -- The frame of buffer `n` goes from the flag to `canService`.
      rw [hflag] at hplace
      simp only [RunPc.taking, beq_self_eq_true, decide_true, Bool.not_true, Bool.and_false,
        Bool.toNat_true, Bool.toNat_false] at hplace ⊢
      omega
    · have hbeq : (n == m) = false := beq_false_of_ne hm
      simp only [RunPc.taking, hbeq, hm, decide_false, Bool.not_false, Bool.and_true] at hplace ⊢
      exact hplace

/-- A frame has one place: while it is at `canService`, its bit is clear. -/
theorem clear_of_taking {n : RxBuf} (h : RxCounts intf pc mask sem rdr full)
    (hpc : pc.taking n = true) : mask.getLsbD (index n) = false := by
  have hplace := h.place n
  have hle := Bool.toNat_le (full n)
  cases hbit : mask.getLsbD (index n) with
  | true =>
      rw [hpc, hbit, Bool.toNat_true] at hplace
      omega
  | false => rfl

/-- `_pendingRxBuf |= …;`, when nobody else has stored in between. -/
theorem store {n : RxBuf} {f v : Byte} (h : RxCounts intf (.rxStore n f v) mask sem rdr full) :
    RxCounts intf (RunPc.goto (RunPc.afterRx n f)) (mask ||| bit n) sem rdr full := by
  have hnext := RunPc.serving_afterRx f h.named
  have hclear : mask.getLsbD (index n) = false := h.clear_of_taking (by simp [RunPc.taking])
  have hmask : ∀ m, (mask ||| bit n).getLsbD (index m) = (mask.getLsbD (index m) || (n == m)) := by
    intro m
    rw [BitVec.getLsbD_or, getLsbD_bit_index]
    rfl
  refine ⟨?_, hnext.named, ?_, ?_, ?_⟩
  · intro m hm
    exact h.seen m (hnext.saw m hm)
  · intro m
    have hplace := h.place m
    rw [hnext.taking m, hmask m]
    by_cases hm : n = m
    · subst hm
      -- The frame of buffer `n` goes from `canService` to the mask.
      simp only [RunPc.taking, beq_self_eq_true, hclear, Bool.or_true, Bool.toNat_true,
        Bool.toNat_false] at hplace ⊢
      omega
    · have hbeq : (n == m) = false := beq_false_of_ne hm
      simp only [RunPc.taking, hbeq, Bool.or_false] at hplace ⊢
      exact hplace
  · -- One bit more, and one give that is owed for it.
    have htokens := h.tokens
    have hmask0 := hmask .b0
    have hmask1 := hmask .b1
    simp only [index] at hmask0 hmask1 hclear
    rw [hnext.owes .b0, hnext.owes .b1, hmask0, hmask1]
    cases n with
    | b0 =>
        simp only [RunPc.owes, before, hclear, beq_self_eq_true, b0_beq_b1, Bool.false_and,
          Bool.or_false, Bool.or_true, Bool.toNat_true, Bool.toNat_false] at htokens ⊢
        omega
    | b1 =>
        simp only [RunPc.owes, before, hclear, beq_self_eq_true, b1_beq_b0, Bool.false_and,
          Bool.true_and, Bool.or_false, Bool.or_true, Bool.false_or, Bool.toNat_true,
          Bool.toNat_false] at htokens ⊢
        omega
  · intro m hm
    rw [hmask m, h.chosen m hm]
    rfl

/-- `xSemaphoreGive(_rxSemaphore)`; the count stays below its bound. -/
theorem give {n : RxBuf} {f : Byte} (h : RxCounts intf (.rxGive n f) mask sem rdr full) :
    RxCounts intf (RunPc.goto (RunPc.afterGive n f)) mask (min 2 (sem + 1)) rdr full := by
  have hnext := RunPc.serving_afterGive f n
  have htokens := h.tokens
  have hle0 := Bool.toNat_le (mask.getLsbD 0)
  have hle1 := Bool.toNat_le (mask.getLsbD 1)
  refine ⟨?_, hnext.named, ?_, ?_, h.chosen⟩
  · intro m hm
    exact Bool.noConfusion (hnext.saw m hm)
  · intro m
    rw [hnext.taking m]
    exact h.place m
  · rw [hnext.owes .b0, hnext.owes .b1]
    cases n with
    | b0 =>
        simp only [RunPc.owes, before, beq_self_eq_true, b0_beq_b1, Bool.false_and,
          Bool.true_and, Bool.true_or, Bool.false_or, Bool.toNat_true, Bool.toNat_false]
          at htokens ⊢
        omega
    | b1 =>
        simp only [RunPc.owes, before, beq_self_eq_true, b1_beq_b0, Bool.false_and,
          Bool.true_or, Bool.false_or, Bool.toNat_true, Bool.toNat_false] at htokens ⊢
        omega

/-! ### The reader -/

theorem takeToken {buf : Nat → Byte} (h : RxCounts intf pc mask sem (some (.take buf)) full)
    (hsem : 0 < sem) : RxCounts intf pc mask (sem - 1) (some (.stamp buf)) full := by
  refine ⟨h.seen, h.named, h.place, ?_, nofun⟩
  have htokens := h.tokens
  simp only [Option.any_some, ReadPc.holds, Bool.toNat_true, Bool.toNat_false] at htokens ⊢
  omega

/-- The token in hand stands for a set bit, so the branch leads to a buffer whose bit is set. -/
theorem test {buf : Nat → Byte} {now : Nat}
    (h : RxCounts intf pc mask sem (some (.test buf now)) full) :
    RxCounts intf pc mask sem (some (ReadPc.fromTest buf now mask)) full := by
  have htokens := h.tokens
  by_cases hbit : mask &&& 0x01#8 ≠ 0#8
  · have hgo : ReadPc.fromTest buf now mask = .load .b0 buf now := if_pos hbit
    rw [hgo]
    refine h.setReader (fun _ => rfl) rfl ?_
    intro n hn
    have hn0 : RxBuf.b0 = n := eq_of_beq hn
    subst hn0
    exact (and_bit0 mask).1 hbit
  · have hgo : ReadPc.fromTest buf now mask = .load .b1 buf now := if_neg hbit
    have hclear : mask.getLsbD 0 = false := not_test (and_bit0 mask) hbit
    rw [hgo]
    refine h.setReader (fun _ => rfl) rfl ?_
    intro n hn
    have hn1 : RxBuf.b1 = n := eq_of_beq hn
    subst hn1
    cases hset : mask.getLsbD 1 with
    | true => exact hset
    | false =>
        -- Both bits clear: there would be no token to hold.
        simp only [hclear, hset, Option.any_some, ReadPc.holds, Bool.toNat_true,
          Bool.toNat_false] at htokens
        omega

/-- `_pendingRxBuf &= ~…;`, when nobody else has stored in between. -/
theorem drop {n : RxBuf} {buf : Nat → Byte} {now : Nat} {v : Byte} {a : BusAct}
    {k : a.Ans → Driver Received}
    (h : RxCounts intf pc mask sem (some (.store n buf now v)) full) :
    RxCounts intf pc (mask &&& ~~~bit n) sem (some (.reading n now a k)) full := by
  have hset : mask.getLsbD (index n) = true := by
    apply h.chosen
    simp [ReadPc.chose]
  have hmask : ∀ m, (mask &&& ~~~bit n).getLsbD (index m) =
      (mask.getLsbD (index m) && !(n == m)) := by
    intro m
    have hm : index m < 8 := by
      cases m <;> decide
    rw [BitVec.getLsbD_and, BitVec.getLsbD_not, getLsbD_bit_index, decide_eq_true hm,
      Bool.true_and]
    rfl
  refine ⟨h.seen, h.named, ?_, ?_, nofun⟩
  · intro m
    have hplace := h.place m
    rw [hmask m]
    by_cases hm : n = m
    · subst hm
      -- The frame of buffer `n` goes from the mask to the read.
      simp only [Option.any_some, ReadPc.reads, hset, beq_self_eq_true, Bool.not_true,
        Bool.and_false, Bool.toNat_true, Bool.toNat_false] at hplace ⊢
      omega
    · have hbeq : (n == m) = false := beq_false_of_ne hm
      simp only [Option.any_some, ReadPc.reads, hbeq, Bool.not_false, Bool.and_true] at hplace ⊢
      exact hplace
  · -- The token in hand goes with the bit that it stood for.
    have htokens := h.tokens
    have hmask0 := hmask .b0
    have hmask1 := hmask .b1
    simp only [index] at hmask0 hmask1
    rw [hmask0, hmask1]
    cases n with
    | b0 =>
        have hset0 : mask.getLsbD 0 = true := hset
        simp only [Option.any_some, ReadPc.holds, hset0, beq_self_eq_true, b0_beq_b1,
          Bool.not_true, Bool.not_false, Bool.and_false, Bool.and_true, Bool.toNat_true,
          Bool.toNat_false] at htokens ⊢
        omega
    | b1 =>
        have hset1 : mask.getLsbD 1 = true := hset
        simp only [Option.any_some, ReadPc.holds, hset1, beq_self_eq_true, b1_beq_b0,
          Bool.not_true, Bool.not_false, Bool.and_false, Bool.and_true, Bool.toNat_true,
          Bool.toNat_false] at htokens ⊢
        omega

/-- The frame of buffer `n` is returned. -/
theorem done {n : RxBuf} {now : Nat} {a : BusAct} {k : a.Ans → Driver Received}
    (h : RxCounts intf pc mask sem (some (.reading n now a k)) full) :
    RxCounts intf pc mask sem none (fun m => full m && !(n == m)) := by
  refine ⟨h.seen, h.named, ?_, h.tokens, nofun⟩
  intro m
  have hplace := h.place m
  by_cases hm : n = m
  · subst hm
    have hle := Bool.toNat_le (full n)
    simp only [Option.any_some, Option.any_none, ReadPc.reads, beq_self_eq_true, Bool.not_true,
      Bool.and_false, Bool.toNat_true, Bool.toNat_false] at hplace ⊢
    omega
  · have hbeq : (n == m) = false := beq_false_of_ne hm
    simp only [Option.any_some, Option.any_none, ReadPc.reads, hbeq, Bool.not_false,
      Bool.and_true] at hplace ⊢
    exact hplace

/-! ### The controller -/

/-- A frame is loaded into a buffer that holds none. -/
theorem load {n : RxBuf} (h : RxCounts intf pc mask sem rdr full) (hempty : full n = false) :
    RxCounts (intf &&& ~~~rxFlag n ||| rxFlag n &&& rxFlag n) pc mask sem rdr
      (fun m => full m || n == m) := by
  have hintf : ∀ m, (intf &&& ~~~rxFlag n ||| rxFlag n &&& rxFlag n).getLsbD (index m) =
      (intf.getLsbD (index m) || n == m) := by
    intro m
    rw [getLsbD_set, getLsbD_rxFlag_index]
    rfl
  refine ⟨?_, h.named, ?_, h.tokens, h.chosen⟩
  · intro m hm
    rw [hintf m, h.seen m hm]
    rfl
  · intro m
    have hplace := h.place m
    rw [hintf m]
    by_cases hm : n = m
    · subst hm
      simp only [hempty, beq_self_eq_true, Bool.or_true, Bool.toNat_true,
        Bool.toNat_false] at hplace ⊢
      omega
    · have hbeq : (n == m) = false := beq_false_of_ne hm
      simp only [hbeq, Bool.or_false] at hplace ⊢
      exact hplace

/-- A buffer whose bit is set holds a frame. -/
theorem full_of_mask {n : RxBuf} (h : RxCounts intf pc mask sem rdr full)
    (hmask : mask.getLsbD (index n) = true) : full n = true := by
  have hplace := h.place n
  cases hfull : full n with
  | true => rfl
  | false =>
      rw [hmask, hfull, Bool.toNat_true, Bool.toNat_false] at hplace
      omega

/-- Where the driver is done with a buffer whose flag is clear, the buffer holds no frame. -/
theorem empty {n : RxBuf} (h : RxCounts intf pc mask sem rdr full)
    (hintf : intf.getLsbD (index n) = false) (hpc : pc.taking n = false)
    (hmask : mask.getLsbD (index n) = false) (hrdr : rdr.any (ReadPc.reads n) = false) :
    full n = false := by
  have hplace := h.place n
  rw [hintf, hpc, hmask, hrdr] at hplace
  cases hfull : full n with
  | true =>
      rw [hfull] at hplace
      cases hplace
  | false => rfl

end RxCounts

/-! ## The steps of the system -/

/-- The value that a control point is about to store, changed, in `_pendingRxBuf`. -/
def RunPc.loadedRx : RunPc → Option Byte
  | .rxStore _ _ v => some v
  | _ => none

def ReadPc.loadedRx : ReadPc → Option Byte
  | .store _ _ _ v => some v
  | _ => none

/-- The mask behind a step of `canService`, had the compound assignment been a single step. -/
def RunPc.marks (mask : Byte) : RunPc → Byte
  | .rxStore n _ _ => mask ||| bit n
  | _ => mask

/-- The mask behind a step of the reader, had the compound assignment been a single step. -/
def ReadPc.drops (mask : Byte) : ReadPc → Byte
  | .store n _ _ _ => mask &&& ~~~bit n
  | _ => mask

/-- The counts of a state. -/
abbrev Sys.RxCounts (s : Sys) (full : RxBuf → Bool) : Prop :=
  Mcp2515Task.RxCounts (s.regs CANINTF) s.can s.pendingRxBuf s.rxSem s.reader full

variable {full : RxBuf → Bool} {mask : Byte}

namespace RxCounts

theorem atPc (h : RxCounts (s.regs CANINTF) s.can mask s.rxSem s.reader full) {p : RunPc}
    (hpc : s.can = p) : RxCounts (s.regs CANINTF) p mask s.rxSem s.reader full :=
  hpc ▸ h

/-- An access to other bits of `CANINTF`. -/
theorem modify (h : RxCounts (s.regs CANINTF) s.can mask s.rxSem s.reader full) {m d : Byte}
    (hm : ∀ n, m.getLsbD (index n) = false) {p : RunPc} (hpc : s.can = p) :
    RxCounts ((s.regs.modify CANINTF m d) CANINTF) p mask s.rxSem s.reader full := by
  apply (h.atPc hpc).setIntf
  intro n
  have hn : index n < 8 := by
    cases n <;> decide
  rw [Regs.modify_self, BitVec.getLsbD_or, BitVec.getLsbD_and, BitVec.getLsbD_and,
    BitVec.getLsbD_not, hm n]
  simp [hn]

/-- A step of `canService`; `mask` need not be what is in `_pendingRxBuf`. -/
theorem can (h : RxCounts (s.regs CANINTF) s.can mask s.rxSem s.reader full) (hm : CanMove s t) :
    RxCounts (t.regs CANINTF) t.can (s.can.marks mask) t.rxSem t.reader full := by
  have hidle : ∀ {p p' : RunPc}, s.can = p → p.apart = true → p'.apart = true →
      RxCounts (s.regs CANINTF) p' mask s.rxSem s.reader full := by
    intro p p' hpc hp hp'
    exact (h.atPc hpc).toIdle (RunPc.idle_of_apart hp) (RunPc.idle_of_apart hp')
  cases hm with
  | awaitDone hpc => rw [hpc]; exact hidle hpc rfl rfl
  | awaitMore hpc => rw [hpc]; exact hidle hpc rfl rfl
  | awaitDelay hpc => rw [hpc]; exact hidle hpc rfl rfl
  | pollHigh hpc hint => rw [hpc]; exact hidle hpc rfl rfl
  | pollLow hpc hint => rw [hpc]; exact hidle hpc rfl rfl
  | block hpc hsem => rw [hpc]; exact hidle hpc rfl rfl
  | readIntf hpc =>
      rw [hpc]
      have hat := h.atPc hpc
      by_cases herr : s.regs CANINTF &&& (MERRF ||| WAKIF ||| ERRIF) ≠ 0#8
      · -- The branch for error flags looks at no receive buffer.
        have hgo : RunPc.goto (RunPc.fromIntf (s.regs CANINTF)) = .readEflg := by
          rw [RunPc.goto_fromIntf, if_pos herr]
        exact hgo ▸ hidle hpc rfl rfl
      · have hgo : RunPc.goto (RunPc.fromIntf (s.regs CANINTF)) =
            RunPc.goto (RunPc.fromStamp (s.regs CANINTF)) := by
          rw [RunPc.goto_fromIntf, if_neg herr]
        exact hat.goTo (fun _ => rfl) (fun _ => rfl) (fun _ hn => hn)
          (hgo ▸ RunPc.serving_fromStamp (s.regs CANINTF))
  | readEflg hpc => rw [hpc]; exact hidle hpc rfl rfl
  | clearErr eflg hpc =>
      rw [hpc]
      have hclear := h.modify (m := MERRF ||| WAKIF ||| ERRIF) (d := 0#8)
        (by intro n; cases n <;> decide) hpc
      refine hclear.toIdle (RunPc.idle_of_apart rfl) (RunPc.idle_of_apart ?_)
      split <;> rfl
  | reqConfig hpc => rw [hpc]; exact hidle hpc rfl rfl
  | settle hpc => rw [hpc]; exact hidle hpc rfl rfl
  | reqNormal hpc => rw [hpc]; exact hidle hpc rfl rfl
  | errLoad hpc => rw [hpc]; exact hidle hpc rfl rfl
  | errStore v hpc => rw [hpc]; exact hidle hpc rfl rfl
  | errGive hpc => rw [hpc]; exact hidle hpc rfl rfl
  | stampLoad f hpc =>
      rw [hpc]
      have hat := h.atPc hpc
      exact hat.goTo (fun _ => rfl) (fun _ => rfl) hat.seen
        ⟨fun _ => rfl, fun _ => id, fun _ => rfl, rfl⟩
  | stampStore f now hpc =>
      rw [hpc]
      have hat := h.atPc hpc
      exact hat.goTo (fun _ => rfl) (fun _ => rfl) hat.seen (RunPc.serving_fromRx0 f)
  | rxClear n f hpc =>
      rw [hpc]
      have hclear := (h.atPc hpc).clear
      rw [← Regs.modify_self] at hclear
      exact hclear
  | rxLoad n f hpc =>
      rw [hpc]
      -- The frame stays with `canService` while `_pendingRxBuf |= …;` is half done.
      have hat := h.atPc hpc
      exact ⟨hat.seen, hat.named, hat.place, hat.tokens, hat.chosen⟩
  | rxStore n f v hpc =>
      rw [hpc]
      exact (h.atPc hpc).store
  | txClear f hpc =>
      rw [hpc]
      have hclear := h.modify (m := TX0IF) (d := 0#8) (by intro n; cases n <;> decide) hpc
      exact hclear.goTo (fun _ => rfl) (fun _ => rfl) hclear.seen
        ⟨fun _ => rfl, fun _ => id, fun _ => rfl, rfl⟩
  | txLoad f hpc =>
      rw [hpc]
      have hat := h.atPc hpc
      exact hat.goTo (fun _ => rfl) (fun _ => rfl) hat.seen
        ⟨fun _ => rfl, fun _ => id, fun _ => rfl, rfl⟩
  | txStore f v hpc =>
      rw [hpc]
      have hat := h.atPc hpc
      exact hat.goTo (fun _ => rfl) (fun _ => rfl) hat.seen
        ((RunPc.serving_fromGive0 f).congr nofun fun _ => rfl)
  | rxGive n f hpc => rw [hpc]; exact (h.atPc hpc).give
  | txGive hpc => rw [hpc]; exact hidle hpc rfl rfl

end RxCounts

/-- Where the value that was loaded is still there, the store is the whole assignment. -/
theorem CanMove.pendingRxBuf (hm : CanMove s t) (hown : ∀ v ∈ s.can.loadedRx, s.pendingRxBuf = v) :
    t.pendingRxBuf = s.can.marks s.pendingRxBuf := by
  cases hm with
  | rxStore n f v hpc =>
      have hv : s.pendingRxBuf = v := hown v (by rw [hpc]; rfl)
      rw [hpc, hv]
      rfl
  | _ => simp only [RunPc.marks, *]

end Mcp2515Task
end PicoCppSdk
