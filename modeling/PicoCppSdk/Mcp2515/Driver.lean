import PicoCppSdk.Foundation.Program
import PicoCppSdk.Mcp2515.Reg

/-!
# Driver — `mcp2515.cpp` as programs over bus transactions

Every primitive of the driver is one chip-select bracket on the SPI bus, and every other method is
built from the primitives.  A `BusAct` is one such bracket (or the bus lock around several); the
methods of `Mcp2515` are programs over them, in the order of the source.  The bytes on the wire are
in `Wire`; here a primitive acts on the register file at once (`BusAct.onRegs`).

A buffer `uint8_t* buf` of the caller is its content from `buf` on, a function of the index: a
store behind the length the caller had in mind is then visible.
-/

namespace PicoCppSdk
namespace Mcp2515

open Atomic

/-! ## Bus transactions -/

/-- One bracket `csSelect … csDeselect`, or the lock that holds the bus over several. -/
inductive BusAct where
  | readByte (addr : Byte)
  | writeByte (addr data : Byte)
  | bitModify (addr mask data : Byte)
  | resetMcp2515
  | lock
  | unlock

/-- `readByte` returns the byte it read. -/
abbrev BusAct.Ans : BusAct → Type
  | .readByte _ => Byte
  | _ => Unit

/-- A method of the driver. -/
abbrev Driver (α : Type) := Prog BusAct BusAct.Ans α

/-- The effect of a transaction on a register file all of whose registers can be written.  The
bytes that `resetMcp2515` sends, `{ CAN_WRITE, CAN_RESET }`, name an address and no data. -/
def BusAct.onRegs : (a : BusAct) → Regs → a.Ans × Regs
  | .readByte addr, r => (r addr, r)
  | .writeByte addr data, r => ((), r.write addr data)
  | .bitModify addr mask data, r => ((), r.modify addr mask data)
  | .resetMcp2515, r => ((), r)
  | .lock, r => ((), r)
  | .unlock, r => ((), r)

def readByte (addr : Byte) : Driver Byte := .act (BusAct.readByte addr) .ret

def writeByte (addr data : Byte) : Driver Unit := .act (BusAct.writeByte addr data) .ret

def bitModify (addr mask data : Byte) : Driver Unit := .act (BusAct.bitModify addr mask data) .ret

def resetMcp2515 : Driver Unit := .act BusAct.resetMcp2515 .ret

def lock : Driver Unit := .act BusAct.lock .ret

def unlock : Driver Unit := .act BusAct.unlock .ret

/-! ## Sending -/

/-- The loop `for (j …) writeByte(dst + j, buf[j])`, from index `j` with `n` turns left. -/
def writeData (dst : Byte) (buf : Nat → Byte) : (j n : Nat) → Driver Unit
  | _, 0 => pure ()
  | j, n + 1 => do
      writeByte (dst + BitVec.ofNat 8 j) (buf j)
      writeData dst buf (j + 1) n

/-- The identifier registers, in the order in which `txBuffer0Send` writes them. -/
def txBuffer0Id (canId : BitVec 32) : Driver Unit :=
  if 0x7FF#32 < canId then do
    -- Bits 0..15 of the identifier, then the two that `SIDL` takes, then the eleven above.
    writeByte TXB0EID0 (u8 (canId &&& 0xFF#32))
    writeByte TXB0EID8 (u8 (canId >>> 8 &&& 0xFF#32))
    writeByte TXB0SIDL
      (u8 (0x08#32 ||| (canId >>> 16 &&& 0x3#32) ||| (canId >>> 18 &&& 0x07#32) <<< 5))
    writeByte TXB0SIDH (u8 (canId >>> 21 &&& 0xFF#32))
  else do
    writeByte TXB0SIDH (u8 (canId >>> 3 &&& 0xFF#32))
    writeByte TXB0SIDL (u8 ((canId &&& 0x07#32) <<< 5))

def txBuffer0Send (canId : BitVec 32) (buf : Nat → Byte) (len : Byte) : Driver Unit := do
  txBuffer0Id canId
  writeByte TXB0DLC len
  writeData TXB0D0 buf 0 len.toNat
  writeByte TXB0CTRL 0x08#8

/-! ## Receiving -/

/-- The loop `for (i …) buf[i] = readByte(src + i)`, from index `i` with `n` turns left. -/
def readData (src : Byte) : (i n : Nat) → (Nat → Byte) → Driver (Nat → Byte)
  | _, 0, buf => pure buf
  | i, n + 1, buf => do
      let b ← readByte (src + BitVec.ofNat 8 i)
      readData src (i + 1) n (Function.update buf i b)

/-- What a read stores through its three pointers. -/
structure Received where
  canId : BitVec 32
  buf : Nat → Byte
  len : Byte

/-- The identifier of a received frame, from the registers `EID8`/`EID0` when it is extended. -/
def rxBufferId (eid8At eid0At : Byte) (sidh sidl : Byte) : Driver (BitVec 32) :=
  if sidl &&& EXIDE_SET ≠ 0#8 then do
    let eid8 ← readByte eid8At
    let eid0 ← readByte eid0At
    pure (u32 sidh <<< 21 ||| u32 (sidl >>> 5) <<< 18 |||
      u32 (sidl &&& 0x03#8) <<< 16 ||| u32 eid8 <<< 8 ||| u32 eid0)
  else
    pure (u32 sidh <<< 3 ||| u32 (sidl >>> 5))

/-- The common body of `rxBuffer0Read` and `rxBuffer1Read`. -/
def rxBufferRead (sidhAt sidlAt dlcAt eid8At eid0At d0At : Byte) (buf : Nat → Byte) :
    Driver Received := do
  let sidh ← readByte sidhAt
  let sidl ← readByte sidlAt
  let dlcReg ← readByte dlcAt
  -- Codes 9..15 pass: the loop below then reads beyond the eight data registers.
  let dlc := dlcReg &&& 0x0F#8
  let canId ← rxBufferId eid8At eid0At sidh sidl
  let buf ← readData d0At 0 dlc.toNat buf
  pure { canId := canId, buf := buf, len := dlc }

def rxBuffer0Read (buf : Nat → Byte) : Driver Received :=
  rxBufferRead RXB0SIDH RXB0SIDL RXB0DLC RXB0EID8 RXB0EID0 RXB0D0 buf

def rxBuffer1Read (buf : Nat → Byte) : Driver Received :=
  rxBufferRead RXB1SIDH RXB1SIDL RXB1DLC RXB1EID8 RXB1EID0 RXB1D0 buf

/-! ## Filters and masks -/

def writeFilterOrMask (sidh : Byte) (id : BitVec 32) (extended : Bool) : Driver Unit :=
  if extended then do
    writeByte sidh (u8 (id >>> 21 &&& 0xFF#32))
    writeByte (sidh + 1)
      (u8 (u32 EXIDE_SET ||| (id >>> 18 &&& 0x07#32) <<< 5 ||| id >>> 16 &&& 0x03#32))
    writeByte (sidh + 2) (u8 (id >>> 8 &&& 0xFF#32))
    writeByte (sidh + 3) (u8 (id &&& 0xFF#32))
  else do
    writeByte sidh (u8 (id >>> 3 &&& 0xFF#32))
    writeByte (sidh + 1) (u8 ((id &&& 0x07#32) <<< 5))
    writeByte (sidh + 2) 0x00#8
    writeByte (sidh + 3) 0x00#8

/-- The bracket that `setFilter` and `setMask` share: configuration mode, the four registers at
`sidh`, normal mode, and the `RXM` bits of the owning receive buffer cleared. -/
def programFilterOrMask (sidh rxbCtrl : Byte) (id : BitVec 32) (extended : Bool) :
    Driver Unit := do
  lock
  writeByte CANCTRL REQOP_CONFIG
  writeFilterOrMask sidh id extended
  writeByte CANCTRL (REQOP_NORMAL ||| CLKOUT_ENABLED)
  -- The buffer goes back to receiving what its filters accept.
  let ctrl ← readByte rxbCtrl
  writeByte rxbCtrl (ctrl &&& ~~~RXM)
  unlock

/-- `filterSidh[filterId]`; the index is below 6 where `setFilter` uses it. -/
def filterSidh (filterId : Byte) : Byte :=
  [RXF0SIDH, RXF1SIDH, RXF2SIDH, RXF3SIDH, RXF4SIDH, RXF5SIDH].getD filterId.toNat 0

/-- `maskSidh[maskId]`; the index is below 2 where `setMask` uses it. -/
def maskSidh (maskId : Byte) : Byte :=
  [RXM0SIDH, RXM1SIDH].getD maskId.toNat 0

def setFilter (filterId : Byte) (canId : BitVec 32) (extended : Bool) : Driver Unit :=
  if 6#8 ≤ filterId then
    pure ()
  else
    programFilterOrMask (filterSidh filterId)
      (if filterId < 2#8 then RXB0CTRL else RXB1CTRL) canId extended

def setMask (maskId : Byte) (mask : BitVec 32) (extended : Bool) : Driver Unit :=
  if 2#8 ≤ maskId then
    pure ()
  else
    programFilterOrMask (maskSidh maskId)
      ([RXB0CTRL, RXB1CTRL].getD maskId.toNat 0) mask extended

/-! ## Effect on a register file -/

section OnRegs

@[simp] theorem readByte_bind {α : Type} (a : Byte) (f : Byte → Driver α) :
    (readByte a >>= f) = .act (.readByte a) f := rfl

@[simp] theorem writeByte_bind {α : Type} (a d : Byte) (f : Unit → Driver α) :
    (writeByte a d >>= f) = .act (.writeByte a d) f := rfl

@[simp] theorem onRegs_readByte (a : Byte) (r : Regs) :
    BusAct.onRegs (.readByte a) r = (r a, r) := rfl

@[simp] theorem onRegs_writeByte (a d : Byte) (r : Regs) :
    BusAct.onRegs (.writeByte a d) r = ((), r.write a d) := rfl

@[simp] theorem onRegs_bitModify (a m d : Byte) (r : Regs) :
    BusAct.onRegs (.bitModify a m d) r = ((), r.modify a m d) := rfl

/-- Writing `n` bytes of `buf` from index `j` on, at most as many as there are addresses. -/
theorem writeData_run (dst : Byte) (buf : Nat → Byte) (n : Nat) :
    ∀ (j : Nat) (r : Regs), j + n ≤ 256 →
      (writeData dst buf j n).run BusAct.onRegs r =
        ((), fun a =>
          if j ≤ (a - dst).toNat ∧ (a - dst).toNat < j + n then buf (a - dst).toNat else r a) := by
  -- Induction on the number of bytes; the offset from `dst` tells which of them goes where.
  induction n with
  | zero =>
      intro j r _
      have hnone : ∀ a : Byte, ¬ (j ≤ (a - dst).toNat ∧ (a - dst).toNat < j + 0) := by
        intro a
        omega
      simp only [writeData, Prog.pure_eq_ret, Prog.run_ret, hnone, if_false]
  | succ n ih =>
      intro j r hj
      simp only [writeData, writeByte_bind, Prog.run_act, onRegs_writeByte]
      rw [ih (j + 1) _ (by omega)]
      refine Prod.ext rfl (funext fun a => ?_)
      have hpos : a = dst + BitVec.ofNat 8 j ↔ (a - dst).toNat = j :=
        eq_add_ofNat_iff (by omega)
      by_cases ha : a = dst + BitVec.ofNat 8 j
      · have haj := hpos.1 ha
        have hlo : ¬ (j + 1 ≤ (a - dst).toNat ∧ (a - dst).toNat < j + 1 + n) := by omega
        have hin : j ≤ (a - dst).toNat ∧ (a - dst).toNat < j + (n + 1) := by omega
        simp only [hlo, hin, and_self, if_true, if_false]
        rw [haj, ha]
        simp
      · have haj : (a - dst).toNat ≠ j := fun h => ha (hpos.2 h)
        have hiff : (j + 1 ≤ (a - dst).toNat ∧ (a - dst).toNat < j + 1 + n) ↔
            (j ≤ (a - dst).toNat ∧ (a - dst).toNat < j + (n + 1)) := by omega
        simp only [hiff, Regs.write_of_ne ha]

/-- Reading `n` registers from `src` on into `buf`, from index `i` on. -/
theorem readData_run (src : Byte) (r : Regs) (n : Nat) :
    ∀ (i : Nat) (buf : Nat → Byte),
      (readData src i n buf).run BusAct.onRegs r =
        (fun j => if i ≤ j ∧ j < i + n then r (src + BitVec.ofNat 8 j) else buf j, r) := by
  induction n with
  | zero =>
      intro i buf
      have hnone : ∀ j : Nat, ¬ (i ≤ j ∧ j < i + 0) := by
        intro j
        omega
      simp only [readData, Prog.pure_eq_ret, Prog.run_ret, hnone, if_false]
  | succ n ih =>
      intro i buf
      simp only [readData, readByte_bind, Prog.run_act, onRegs_readByte]
      rw [ih (i + 1)]
      refine Prod.ext (funext fun j => ?_) rfl
      by_cases hj : j = i
      · subst hj
        simp
      · have hiff : (i + 1 ≤ j ∧ j < i + 1 + n) ↔ (i ≤ j ∧ j < i + (n + 1)) := by omega
        simp only [hiff, Function.update_of_ne hj]

/-- The identifier as `rxBufferRead` puts it together from its four registers. -/
def decodeId (sidh sidl eid8 eid0 : Byte) : BitVec 32 :=
  if sidl &&& EXIDE_SET ≠ 0#8 then
    u32 sidh <<< 21 ||| u32 (sidl >>> 5) <<< 18 ||| u32 (sidl &&& 0x03#8) <<< 16 |||
      u32 eid8 <<< 8 ||| u32 eid0
  else
    u32 sidh <<< 3 ||| u32 (sidl >>> 5)

theorem rxBufferId_run (eid8At eid0At sidh sidl : Byte) (r : Regs) :
    (rxBufferId eid8At eid0At sidh sidl).run BusAct.onRegs r =
      (decodeId sidh sidl (r eid8At) (r eid0At), r) := by
  by_cases h : sidl &&& EXIDE_SET ≠ 0#8
  · simp only [rxBufferId, decodeId, if_pos h, readByte_bind]
    rfl
  · simp only [rxBufferId, decodeId, if_neg h]
    rfl

theorem rxBufferRead_run (sidhAt sidlAt dlcAt eid8At eid0At d0At : Byte) (buf : Nat → Byte)
    (r : Regs) :
    (rxBufferRead sidhAt sidlAt dlcAt eid8At eid0At d0At buf).run BusAct.onRegs r =
      ({ canId := decodeId (r sidhAt) (r sidlAt) (r eid8At) (r eid0At)
         buf := fun i =>
          if i < (r dlcAt &&& 0x0F#8).toNat then r (d0At + BitVec.ofNat 8 i) else buf i
         len := r dlcAt &&& 0x0F#8 }, r) := by
  simp only [rxBufferRead, readByte_bind, Prog.run_act, onRegs_readByte, Prog.run_bind,
    rxBufferId_run, readData_run, Prog.pure_eq_ret, Prog.run_ret, Nat.zero_le, true_and,
    Nat.zero_add]

end OnRegs
end Mcp2515
end PicoCppSdk
