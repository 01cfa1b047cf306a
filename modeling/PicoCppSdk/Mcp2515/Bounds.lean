import PicoCppSdk.Mcp2515.Access

/-!
# Bounds — payload lengths beyond eight bytes

A CAN frame carries at most eight bytes, but its length code has four bits and the `len` of a send
is a byte.  Neither `rxBuffer0Read`/`rxBuffer1Read` nor `txBuffer0Send` looks at the bound: the copy
loops run as often as the code says.  This module states what the two directions may touch and
shows for which lengths they keep to it.
-/

namespace PicoCppSdk
namespace Mcp2515

open Atomic

/-! ## Reading -/

section Receive

variable (n : RxBuf) (r : Regs)

/-- What a read of buffer `n` hands to its caller. -/
def rxResult (buf : Nat → Byte) : Received :=
  ((rxRead n buf).run BusAct.onRegs r).1

/-- The length code in the buffer. -/
def lengthCode : Byte :=
  r (n.base + BitVec.ofNat 8 4) &&& 0x0F#8

/-- The read stores into place `i` of the caller's buffer: what is found there afterwards does not
depend on what was there before. -/
def Stored (i : Nat) : Prop :=
  ∃ b, ∀ buf, (rxResult n r buf).buf i = b

/-- Place `i` receives the content of the register `a`, whatever the registers hold, as long as the
length code is the one in `r`. -/
def TakenFrom (i : Nat) (a : Byte) : Prop :=
  ∀ (r' : Regs) (buf : Nat → Byte), lengthCode n r' = lengthCode n r →
    (rxResult n r' buf).buf i = r' a

/-- The read keeps to eight bytes, to its own buffer, and tells its caller how many it stored. -/
structure ReadsWithin : Prop where
  atMostEight : ∀ (buf : Nat → Byte) (i : Nat), 8 ≤ i → (rxResult n r buf).buf i = buf i
  len : ∀ (buf : Nat → Byte) (i : Nat), Stored n r i ↔ i < (rxResult n r buf).len.toNat
  source : ∀ i, Stored n r i → ∃ k, k < 8 ∧ TakenFrom n r i (n.base + BitVec.ofNat 8 (5 + k))
  looks : ∀ (buf : Nat → Byte), ∀ a ∈ (rxRead n buf).trace BusAct.onRegs r, ReadsBuffer n a

variable {n r}

theorem rxResult_buf (buf : Nat → Byte) (i : Nat) :
    (rxResult n r buf).buf i =
      if i < (lengthCode n r).toNat then r (n.base + BitVec.ofNat 8 (5 + i)) else buf i := by
  have hadd : n.base + BitVec.ofNat 8 5 + BitVec.ofNat 8 i = n.base + BitVec.ofNat 8 (5 + i) := by
    rw [BitVec.add_assoc, ← BitVec.ofNat_add]
  rw [rxResult, rxRead_eq, rxBufferRead_run, ← hadd]
  rfl

theorem rxResult_len (buf : Nat → Byte) : (rxResult n r buf).len = lengthCode n r := by
  rw [rxResult, rxRead_eq, rxBufferRead_run]
  rfl

theorem stored_iff {i : Nat} : Stored n r i ↔ i < (lengthCode n r).toNat := by
  constructor
  · rintro ⟨b, hb⟩
    by_contra hi
    -- A place the loop does not reach shows the caller's byte, so two callers differ in it.
    have h0 : (0x00#8 : Byte) = b := by
      simpa [rxResult_buf, hi] using hb fun _ => 0x00#8
    have h1 : (0x01#8 : Byte) = b := by
      simpa [rxResult_buf, hi] using hb fun _ => 0x01#8
    exact absurd (h0.trans h1.symm) (by decide)
  · intro hi
    exact ⟨_, fun buf => (rxResult_buf buf i).trans (if_pos hi)⟩

theorem takenFrom_of_stored {i : Nat} (h : Stored n r i) :
    TakenFrom n r i (n.base + BitVec.ofNat 8 (5 + i)) := by
  intro r' buf hcode
  have hi : i < (lengthCode n r').toNat := by
    simpa [hcode] using stored_iff.1 h
  exact (rxResult_buf buf i).trans (if_pos hi)

/-- The ninth byte would go behind the caller's eight. -/
theorem lengthCode_le_of_atMostEight
    (h : ∀ (buf : Nat → Byte) (i : Nat), 8 ≤ i → (rxResult n r buf).buf i = buf i) :
    lengthCode n r ≤ 8#8 := by
  by_contra hgt
  have hstored : Stored n r 8 := by
    have hlt : 8 < (lengthCode n r).toNat := by
      simpa [BitVec.le_def] using hgt
    exact stored_iff.2 hlt
  rcases hstored with ⟨b, hb⟩
  have h0 : (0x00#8 : Byte) = b := (h _ 8 (Nat.le_refl 8)).symm.trans (hb fun _ => 0x00#8)
  have h1 : (0x01#8 : Byte) = b := (h _ 8 (Nat.le_refl 8)).symm.trans (hb fun _ => 0x01#8)
  exact absurd (h0.trans h1.symm) (by decide)

/-- Exactly the length codes that a frame of at most eight bytes has are read within the bounds. -/
theorem readsWithin_iff (n : RxBuf) (r : Regs) : ReadsWithin n r ↔ lengthCode n r ≤ 8#8 := by
  constructor
  · intro h
    exact lengthCode_le_of_atMostEight h.atMostEight
  · intro hcode
    have hle : (lengthCode n r).toNat ≤ 8 := hcode
    refine ⟨?_, ?_, ?_, ?_⟩
    · intro buf i hi
      have hout : ¬ i < (lengthCode n r).toNat := Nat.not_lt.2 (Nat.le_trans hle hi)
      exact (rxResult_buf buf i).trans (if_neg hout)
    · intro buf i
      rw [stored_iff, rxResult_len]
    · intro i hi
      exact ⟨i, Nat.lt_of_lt_of_le (stored_iff.1 hi) hle, takenFrom_of_stored hi⟩
    · intro buf
      exact Prog.mem_trace_of_performs (rxRead_performs n r buf hcode)

/-- The controller hands over a frame whose length code is 9. -/
theorem not_readsWithin : ¬ ∀ (n : RxBuf) (r : Regs), ReadsWithin n r := by
  intro h
  have hcode := lengthCode_le_of_atMostEight (h .b0 fun _ => 0x09#8).atMostEight
  exact absurd hcode (by decide)

end Receive

/-! ## Sending -/

section Send

variable (canId : BitVec 32) (buf : Nat → Byte) (len : Byte)

/-- The registers TXB0CTRL to TXB0D7. -/
def OfTxb0 (a : Byte) : Prop :=
  (a - TXB0CTRL).toNat < 14

instance (a : Byte) : Decidable (OfTxb0 a) :=
  inferInstanceAs (Decidable (_ < _))

/-- The write requests a transmission from one of the three transmit buffers. -/
def RequestsTx (a : BusAct) : Prop :=
  ∃ addr data, a = .writeByte addr data ∧ (addr = TXB0CTRL ∨ addr = TXB1CTRL ∨ addr = TXB2CTRL) ∧
    data &&& TXREQ ≠ 0#8

/-- The transactions of a send. -/
def sendTrace (r : Regs) : List BusAct :=
  (txBuffer0Send canId buf len).trace BusAct.onRegs r

/-- The send keeps to TXB0, describes a data frame of at most eight bytes, and requests the
transmission with its last write and with no other. -/
structure SendsWithin (r : Regs) : Prop where
  frame : ∀ a, ¬ OfTxb0 a → sentRegs canId buf len r a = r a
  dlc : ∀ d, BusAct.writeByte TXB0DLC d ∈ sendTrace canId buf len r →
    d &&& 0x40#8 = 0#8 ∧ d &&& 0x0F#8 ≤ 8#8
  request : ∃ as a, sendTrace canId buf len r = as ++ [a] ∧ RequestsTx a ∧
    ∀ a' ∈ as, ¬ RequestsTx a'

variable {canId buf len}

theorem ofWrites_trace (ws : List (Byte × Byte)) (r : Regs) :
    (ofWrites ws).trace BusAct.onRegs r = ws.map fun w => .writeByte w.1 w.2 := by
  induction ws generalizing r with
  | nil => rfl
  | cons w ws ih =>
      exact congrArg (BusAct.writeByte w.1 w.2 :: ·) (ih _)

theorem sendTrace_eq (r : Regs) :
    sendTrace canId buf len r =
      (txBody canId buf len).map (fun w => BusAct.writeByte w.1 w.2) ++
        [.writeByte TXB0CTRL 0x08#8] := by
  rw [sendTrace, txBuffer0Send_eq, ofWrites_trace, List.map_append]
  rfl

theorem mem_sendTrace {r : Regs} {a d : Byte} (ha : a ≠ TXB0CTRL)
    (h : BusAct.writeByte a d ∈ sendTrace canId buf len r) : (a, d) ∈ txBody canId buf len := by
  rw [sendTrace_eq] at h
  rcases List.mem_append.1 h with hbody | hlast
  · rcases List.mem_map.1 hbody with ⟨w, hw, heq⟩
    cases heq
    exact hw
  · cases List.mem_singleton.1 hlast
    exact absurd rfl ha

theorem dlc_mem_sendTrace (r : Regs) :
    BusAct.writeByte TXB0DLC len ∈ sendTrace canId buf len r := by
  rw [sendTrace_eq]
  refine List.mem_append_left _ (List.mem_map.2 ⟨(TXB0DLC, len), ?_, rfl⟩)
  exact List.mem_append_right _ (List.mem_cons_self ..)

/-- Among the writes to TXB0 the length code is written once. -/
theorem txBody_dlc (hlen : len ≤ 8#8) {d : Byte} (h : (TXB0DLC, d) ∈ txBody canId buf len) :
    d = len := by
  have hle : len.toNat ≤ 8 := hlen
  rcases List.mem_append.1 h with hid | hrest
  · unfold txIdWrites at hid
    split at hid <;> simp at hid
  · rcases List.mem_cons.1 hrest with heq | hdata
    · exact (Prod.mk.inj heq).2
    · rcases List.mem_map.1 hdata with ⟨j, hj, heq⟩
      have hj8 : j < 8 := Nat.lt_of_lt_of_le (by simpa using (List.mem_range'_1.1 hj).2) hle
      have hoff := add_ofNat_sub_toNat TXB0D0 (k := j) (by omega)
      rw [(Prod.mk.inj heq).1] at hoff
      simp at hoff
      omega

/-! A payload of at most eight bytes -/

theorem frame_of_le (hlen : len ≤ 8#8) (r : Regs) {a : Byte} (ha : ¬ OfTxb0 a) :
    sentRegs canId buf len r a = r a := by
  have hctrl : a ≠ TXB0CTRL := by
    rintro rfl
    exact ha (by decide)
  have hrange : ¬ InTxb0 a := by
    intro hin
    simp only [InTxb0, OfTxb0, BitVec.toNat_sub] at hin ha
    simp at hin ha
    omega
  have hbody : a ∉ (txBody canId buf len ++ [(TXB0CTRL, 0x08#8)]).map Prod.fst := by
    intro hmem
    rcases List.mem_map.1 hmem with ⟨w, hw, rfl⟩
    rcases List.mem_append.1 hw with hw | hw
    · exact hrange (txBody_inTxb0 canId buf len hlen w hw)
    · cases List.mem_singleton.1 hw
      exact hctrl rfl
  rw [sentRegs, txBuffer0Send_eq, ofWrites_run]
  exact Regs.writes_of_notMem hbody r

theorem request_of_le (hlen : len ≤ 8#8) (r : Regs) :
    ∃ as a, sendTrace canId buf len r = as ++ [a] ∧ RequestsTx a ∧
      ∀ a' ∈ as, ¬ RequestsTx a' := by
  refine ⟨_, _, sendTrace_eq r, ⟨_, _, rfl, Or.inl rfl, by decide⟩, ?_⟩
  intro a' ha'
  rcases List.mem_map.1 ha' with ⟨w, hw, rfl⟩
  have hin := txBody_inTxb0 canId buf len hlen w hw
  rintro ⟨addr, data, heq, haddr, -⟩
  cases heq
  -- None of the three control registers lies among the thirteen that describe the frame.
  rcases haddr with h | h | h <;> (rw [h] at hin; exact absurd hin (by decide))

theorem dlc_of_le (hlen : len ≤ 8#8) (r : Regs) {d : Byte}
    (h : BusAct.writeByte TXB0DLC d ∈ sendTrace canId buf len r) :
    d &&& 0x40#8 = 0#8 ∧ d &&& 0x0F#8 ≤ 8#8 := by
  have hd : d = len := txBody_dlc hlen (mem_sendTrace (by decide) h)
  subst hd
  constructor
  · have hrtr : d.getLsbD 6 = false :=
      getLsbD_of_toNat_lt (Nat.lt_of_le_of_lt hlen (by decide : 8 < 2 ^ 6)) (Nat.le_refl 6)
    have hbit := BitVec.and_twoPow d 6
    rw [hrtr] at hbit
    exact hbit
  · exact Nat.le_trans (by simpa using Nat.and_le_left) hlen

/-! A longer one -/

/-- The tenth byte of a payload goes to the address 0x3F, a mirror of `CANCTRL`. -/
theorem sentRegs_canctrl (hlen : 9 < len.toNat) (r : Regs) :
    sentRegs canId buf len r 0x3F#8 = buf 9 := by
  have hoff : (0x3F#8 - TXB0D0).toNat = 9 := by decide
  rw [sentRegs_eq, if_neg (by decide), hoff, if_pos hlen]

theorem le_of_sendsWithin (h : ∀ r, SendsWithin canId buf len r) : len ≤ 8#8 := by
  by_contra hgt
  have hlen : 8 < len.toNat := by
    simpa [BitVec.le_def] using hgt
  by_cases h9 : len.toNat = 9
  · -- Nine bytes end in CANSTAT, which cannot be written: what goes wrong is the length code.
    have hcode := ((h fun _ => 0#8).dlc len (dlc_mem_sendTrace _)).2
    have heq : len = 9#8 := BitVec.eq_of_toNat_eq h9
    rw [heq] at hcode
    exact absurd hcode (by decide)
  · have hkeep := (h fun _ => ~~~buf 9).frame 0x3F#8 (by decide)
    rw [sentRegs_canctrl (by omega)] at hkeep
    exact absurd hkeep (by simp)

/-- Whatever identifier and payload a send is given, it stays in TXB0 in every state of the
registers exactly when the payload has at most eight bytes. -/
theorem sendsWithin_iff (canId : BitVec 32) (buf : Nat → Byte) (len : Byte) :
    (∀ r, SendsWithin canId buf len r) ↔ len ≤ 8#8 := by
  constructor
  · exact le_of_sendsWithin
  · intro hlen r
    exact ⟨fun a ha => frame_of_le hlen r ha, fun d hd => dlc_of_le hlen r hd, request_of_le hlen r⟩

/-- A payload of ten bytes whose tenth is 0x80 requests the configuration mode. -/
theorem not_sendsWithin :
    ¬ ∀ (canId : BitVec 32) (buf : Nat → Byte) (len : Byte) (r : Regs),
      SendsWithin canId buf len r := by
  intro h
  have hkeep := (h 0#32 (fun _ => 0x80#8) 10#8 fun _ => 0#8).frame 0x3F#8 (by decide)
  rw [sentRegs_canctrl (by decide)] at hkeep
  exact absurd hkeep (by decide)

end Send

end Mcp2515
end PicoCppSdk
