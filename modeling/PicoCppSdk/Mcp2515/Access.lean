import PicoCppSdk.Mcp2515.Codec

/-!
# Access — what the driver's methods do to the register file

A read of a receive buffer changes nothing.  A send is a straight list of writes: it stays in the
registers of TXB0, and the transmit request is its last write.
-/

namespace PicoCppSdk
namespace Mcp2515

open Atomic

/-! ## Methods that only read -/

section Reads

variable {α β : Type}

/-- Every action that the method can ever perform is a read. -/
def ReadsOnly : Driver α → Prop
  | .ret _ => True
  | .act a k => (∃ addr, a = .readByte addr) ∧ ∀ r, ReadsOnly (k r)

theorem ReadsOnly.bind {p : Driver α} {g : α → Driver β} (hp : ReadsOnly p)
    (hg : ∀ x, ReadsOnly (g x)) : ReadsOnly (p >>= g) := by
  induction p with
  | ret x => exact hg x
  | act a k ih =>
      exact ⟨hp.1, fun r => ih r (hp.2 r)⟩

theorem readsOnly_readByte (addr : Byte) : ReadsOnly (readByte addr) :=
  ⟨⟨addr, rfl⟩, fun _ => trivial⟩

theorem readsOnly_readData (src : Byte) (n : Nat) :
    ∀ (i : Nat) (buf : Nat → Byte), ReadsOnly (readData src i n buf) := by
  induction n with
  | zero =>
      intro i buf
      trivial
  | succ n ih =>
      intro i buf
      exact (readsOnly_readByte _).bind fun b => ih (i + 1) _

theorem readsOnly_rxBufferId (eid8At eid0At sidh sidl : Byte) :
    ReadsOnly (rxBufferId eid8At eid0At sidh sidl) := by
  unfold rxBufferId
  split
  · refine (readsOnly_readByte _).bind fun eid8 => ?_
    exact (readsOnly_readByte _).bind fun eid0 => trivial
  · trivial

/-- The two reads only read. -/
theorem readsOnly_rxRead (n : RxBuf) (buf : Nat → Byte) : ReadsOnly (rxRead n buf) := by
  rw [rxRead_eq]
  refine (readsOnly_readByte _).bind fun sidh => ?_
  refine (readsOnly_readByte _).bind fun sidl => ?_
  refine (readsOnly_readByte _).bind fun dlc => ?_
  refine (readsOnly_rxBufferId _ _ _ _).bind fun canId => ?_
  exact (readsOnly_readData _ _ _ _).bind fun buf => trivial

end Reads

/-! ## Where a read looks -/

section Look

/-- A read of one of the thirteen registers of buffer `n`. -/
def ReadsBuffer (n : RxBuf) (a : BusAct) : Prop :=
  ∃ k, k < 13 ∧ a = .readByte (n.base + BitVec.ofNat 8 k)

theorem readData_performs (n : RxBuf) (r : Regs) (m : Nat) :
    ∀ (i : Nat) (buf : Nat → Byte), i + m ≤ 8 →
      (readData (n.base + BitVec.ofNat 8 5) i m buf).Performs BusAct.onRegs (ReadsBuffer n) r := by
  induction m with
  | zero =>
      intro i buf _
      trivial
  | succ m ih =>
      intro i buf hi
      have hadd : n.base + BitVec.ofNat 8 5 + BitVec.ofNat 8 i =
          n.base + BitVec.ofNat 8 (5 + i) := by
        rw [BitVec.add_assoc, ← BitVec.ofNat_add]
      refine ⟨⟨5 + i, by omega, by rw [hadd]⟩, ?_⟩
      exact ih (i + 1) _ (by omega)

theorem rxBufferId_performs (n : RxBuf) (r : Regs) (sidh sidl : Byte) :
    (rxBufferId (n.base + BitVec.ofNat 8 2) (n.base + BitVec.ofNat 8 3) sidh sidl).Performs
      BusAct.onRegs (ReadsBuffer n) r := by
  unfold rxBufferId
  split
  · exact ⟨⟨2, by decide, rfl⟩, ⟨3, by decide, rfl⟩, trivial⟩
  · trivial

/-- With a length code of at most 8 a read looks at the registers of its own buffer only. -/
theorem rxRead_performs (n : RxBuf) (r : Regs) (buf : Nat → Byte)
    (hdlc : r (n.base + BitVec.ofNat 8 4) &&& 0x0F#8 ≤ 8#8) :
    (rxRead n buf).Performs BusAct.onRegs (ReadsBuffer n) r := by
  rw [rxRead_eq]
  simp only [rxBufferRead, readByte_bind, Prog.performs_act, onRegs_readByte, Prog.performs_bind,
    Prog.performs_ret, Prog.pure_eq_ret, rxBufferId_run, and_true]
  refine ⟨⟨0, by decide, rfl⟩, ⟨1, by decide, rfl⟩, ⟨4, by decide, rfl⟩,
    rxBufferId_performs n r _ _, ?_⟩
  have hle : (r (n.base + BitVec.ofNat 8 4) &&& 0x0F#8).toNat ≤ 8 := hdlc
  exact readData_performs n r _ 0 buf (by omega)

end Look

/-! ## Lists of writes -/

/-- The writes of a list, in order. -/
def ofWrites : List (Byte × Byte) → Driver Unit
  | [] => .ret ()
  | w :: ws => .act (.writeByte w.1 w.2) fun _ => ofWrites ws

/-- Their effect. -/
def Regs.writes (r : Regs) : List (Byte × Byte) → Regs
  | [] => r
  | w :: ws => (r.write w.1 w.2).writes ws

@[simp] theorem ofWrites_nil : ofWrites [] = .ret () := rfl

@[simp] theorem ofWrites_cons (w : Byte × Byte) (ws : List (Byte × Byte)) :
    ofWrites (w :: ws) = .act (.writeByte w.1 w.2) fun _ => ofWrites ws := rfl

theorem ofWrites_append (ws vs : List (Byte × Byte)) :
    ofWrites (ws ++ vs) = (ofWrites ws >>= fun _ => ofWrites vs) := by
  induction ws with
  | nil => rfl
  | cons w ws ih =>
      simp only [List.cons_append, ofWrites_cons, Prog.act_bind, ih]

/-- Writes of which one is known to come begin with a transaction. -/
theorem exists_ofWrites_append (ws : List (Byte × Byte)) (w : Byte × Byte) :
    ∃ a k, ofWrites (ws ++ [w]) = .act a k := by
  cases ws with
  | nil => exact ⟨_, _, rfl⟩
  | cons v ws => exact ⟨_, _, rfl⟩

theorem ofWrites_run (ws : List (Byte × Byte)) (r : Regs) :
    (ofWrites ws).run BusAct.onRegs r = ((), r.writes ws) := by
  induction ws generalizing r with
  | nil => rfl
  | cons w ws ih =>
      exact ih (r.write w.1 w.2)

theorem Regs.writes_append (r : Regs) (ws vs : List (Byte × Byte)) :
    r.writes (ws ++ vs) = (r.writes ws).writes vs := by
  induction ws generalizing r with
  | nil => rfl
  | cons w ws ih =>
      exact ih (r.write w.1 w.2)

theorem Regs.writes_of_notMem {a : Byte} {ws : List (Byte × Byte)} (h : a ∉ ws.map Prod.fst)
    (r : Regs) : r.writes ws a = r a := by
  induction ws generalizing r with
  | nil => rfl
  | cons w ws ih =>
      rw [List.map_cons, List.mem_cons, not_or] at h
      rw [writes, ih h.2, write_of_ne h.1]

/-- Files that agree on a set of registers agree on it after the same writes. -/
theorem Regs.writes_agree {P : Byte → Prop} {r r' : Regs} (h : ∀ a, P a → r a = r' a)
    (ws : List (Byte × Byte)) : ∀ a, P a → r.writes ws a = r'.writes ws a := by
  induction ws generalizing r r' with
  | nil => exact h
  | cons w ws ih =>
      apply ih
      intro a ha
      by_cases hw : a = w.1
      · rw [hw, Regs.write_self, Regs.write_self]
      · rw [Regs.write_of_ne hw, Regs.write_of_ne hw]
        exact h a ha

/-! ## The writes of `txBuffer0Send` -/

section Send

variable (canId : BitVec 32) (buf : Nat → Byte) (len : Byte)

/-- The identifier writes. -/
def txIdWrites : List (Byte × Byte) :=
  if 0x7FF#32 < canId then
    [(TXB0EID0, u8 (canId &&& 0xFF#32)), (TXB0EID8, u8 (canId >>> 8 &&& 0xFF#32)),
      (TXB0SIDL,
        u8 (0x08#32 ||| (canId >>> 16 &&& 0x3#32) ||| (canId >>> 18 &&& 0x07#32) <<< 5)),
      (TXB0SIDH, u8 (canId >>> 21 &&& 0xFF#32))]
  else
    [(TXB0SIDH, u8 (canId >>> 3 &&& 0xFF#32)), (TXB0SIDL, u8 ((canId &&& 0x07#32) <<< 5))]

/-- All writes but the last. -/
def txBody : List (Byte × Byte) :=
  txIdWrites canId ++ (TXB0DLC, len) ::
    (List.range' 0 len.toNat).map fun j => (TXB0D0 + BitVec.ofNat 8 j, buf j)

theorem txBuffer0Id_eq : txBuffer0Id canId = ofWrites (txIdWrites canId) := by
  by_cases h : 0x7FF#32 < canId
  · simp only [txBuffer0Id, txIdWrites, if_pos h]
    rfl
  · simp only [txBuffer0Id, txIdWrites, if_neg h]
    rfl

theorem writeData_eq (dst : Byte) (n : Nat) :
    ∀ j, writeData dst buf j n =
      ofWrites ((List.range' j n).map fun i => (dst + BitVec.ofNat 8 i, buf i)) := by
  induction n with
  | zero =>
      intro j
      rfl
  | succ n ih =>
      intro j
      simp only [writeData, writeByte_bind, ih, List.range'_succ, List.map_cons, ofWrites_cons]

/-- A send is a list of writes whose last one requests the transmission. -/
theorem txBuffer0Send_eq :
    txBuffer0Send canId buf len = ofWrites (txBody canId buf len ++ [(TXB0CTRL, 0x08#8)]) := by
  simp only [txBuffer0Send, txBody, txBuffer0Id_eq, writeData_eq, List.append_assoc,
    List.cons_append, ofWrites_append, ofWrites_cons]
  rfl

/-- The registers of TXB0 behind its control register. -/
def InTxb0 (a : Byte) : Prop :=
  (a - TXB0SIDH).toNat < 13

instance (a : Byte) : Decidable (InTxb0 a) :=
  inferInstanceAs (Decidable (_ < _))

/-- With at most eight data bytes these writes stay in TXB0. -/
theorem txBody_inTxb0 (hlen : len ≤ 8#8) : ∀ w ∈ txBody canId buf len, InTxb0 w.1 := by
  have hle : len.toNat ≤ 8 := hlen
  intro w hw
  rcases List.mem_append.1 hw with hid | hrest
  · unfold txIdWrites at hid
    split at hid
    · simp only [List.mem_cons, List.not_mem_nil, or_false] at hid
      rcases hid with rfl | rfl | rfl | rfl <;> simp [InTxb0]
    · simp only [List.mem_cons, List.not_mem_nil, or_false] at hid
      rcases hid with rfl | rfl <;> simp [InTxb0]
  · rcases List.mem_cons.1 hrest with rfl | hdata
    · simp [InTxb0]
    · rcases List.mem_map.1 hdata with ⟨j, hj, rfl⟩
      have hj8 : j < 8 := by
        have hlt := (List.mem_range'_1.1 hj).2
        omega
      have hadd : TXB0D0 + BitVec.ofNat 8 j = TXB0SIDH + BitVec.ofNat 8 (5 + j) := by
        rw [BitVec.ofNat_add, ← BitVec.add_assoc]
        rfl
      have hoff := add_ofNat_sub_toNat TXB0SIDH (k := 5 + j) (by omega)
      simp only [InTxb0, hadd, hoff]
      omega

end Send

/-- TXB0 lies apart from the receive buffers. -/
theorem Regs.load_of_inTxb0 {a : Byte} (h : InTxb0 a) (r : Regs) (n : RxBuf) (img : RxImage) :
    r.load n img a = r a := by
  have hout : ¬ (a - n.base).toNat < 13 := by
    cases n <;> simp only [InTxb0, RxBuf.base, BitVec.toNat_sub] at h ⊢ <;> simp at h ⊢ <;> omega
  exact Regs.load_of_outside hout r img

/-- The frame of TXB0 depends on the registers of TXB0 only. -/
theorem txFrame_congr {r r' : Regs} (h : ∀ a, InTxb0 a → r a = r' a) : txFrame r = txFrame r' := by
  have hsidh := h TXB0SIDH (by decide)
  have hsidl := h TXB0SIDL (by decide)
  have heid8 := h TXB0EID8 (by decide)
  have heid0 := h TXB0EID0 (by decide)
  have hdlc := h TXB0DLC (by decide)
  have hdata : ∀ i, i < 8 → r (TXB0D0 + BitVec.ofNat 8 i) = r' (TXB0D0 + BitVec.ofNat 8 i) := by
    intro i hi
    apply h
    interval_cases i <;> decide
  apply CanFrame.ext'
  · simp only [txFrame, hsidl]
  · simp only [txFrame, hsidh, hsidl, heid8, heid0]
  · simp only [txFrame, hdlc]
  · simp only [txFrame, hdlc]
  · simp only [txFrame, hdlc]
    split
    · rfl
    · apply List.map_congr_left
      intro i hi
      exact hdata i (lt_of_lt_of_le (List.mem_range.1 hi) (min_le_right _ _))

end Mcp2515
end PicoCppSdk
