import Mathlib.Data.BitVec
import Mathlib.Logic.Function.Basic

/-!
# Reg — register addresses and bits of the MCP2515

The constants of `mcp2515reg.h` that the driver uses, under their names there, and the flat file
of byte registers they index.
-/

namespace PicoCppSdk
namespace Mcp2515

abbrev Byte := BitVec 8

/-- A `uint32_t` value passed to a `uint8_t` parameter. -/
abbrev u8 (x : BitVec 32) : Byte := x.setWidth 8

/-- The cast `(uint32_t)x` of a byte. -/
abbrev u32 (x : Byte) : BitVec 32 := x.setWidth 32

/-! ## Addresses -/

section Addresses

@[simp] def CANCTRL : Byte := 0x0F
@[simp] def CANSTAT : Byte := 0x0E
@[simp] def CNF3 : Byte := 0x28
@[simp] def CNF2 : Byte := 0x29
@[simp] def CNF1 : Byte := 0x2A
@[simp] def CANINTE : Byte := 0x2B
@[simp] def CANINTF : Byte := 0x2C
@[simp] def EFLG : Byte := 0x2D

@[simp] def RXF0SIDH : Byte := 0x00
@[simp] def RXF1SIDH : Byte := 0x04
@[simp] def RXF2SIDH : Byte := 0x08
@[simp] def RXF3SIDH : Byte := 0x10
@[simp] def RXF4SIDH : Byte := 0x14
@[simp] def RXF5SIDH : Byte := 0x18
@[simp] def RXM0SIDH : Byte := 0x20
@[simp] def RXM1SIDH : Byte := 0x24

@[simp] def TXB0CTRL : Byte := 0x30
@[simp] def TXB0SIDH : Byte := 0x31
@[simp] def TXB0SIDL : Byte := 0x32
@[simp] def TXB0EID8 : Byte := 0x33
@[simp] def TXB0EID0 : Byte := 0x34
@[simp] def TXB0DLC : Byte := 0x35
@[simp] def TXB0D0 : Byte := 0x36
@[simp] def TXB1CTRL : Byte := 0x40
@[simp] def TXB2CTRL : Byte := 0x50

@[simp] def RXB0CTRL : Byte := 0x60
@[simp] def RXB0SIDH : Byte := 0x61
@[simp] def RXB0SIDL : Byte := 0x62
@[simp] def RXB0EID8 : Byte := 0x63
@[simp] def RXB0EID0 : Byte := 0x64
@[simp] def RXB0DLC : Byte := 0x65
@[simp] def RXB0D0 : Byte := 0x66
@[simp] def RXB1CTRL : Byte := 0x70
@[simp] def RXB1SIDH : Byte := 0x71
@[simp] def RXB1SIDL : Byte := 0x72
@[simp] def RXB1EID8 : Byte := 0x73
@[simp] def RXB1EID0 : Byte := 0x74
@[simp] def RXB1DLC : Byte := 0x75
@[simp] def RXB1D0 : Byte := 0x76

end Addresses

/-! ## Bits and values -/

section Bits

@[simp] def TXREQ : Byte := 0x08
@[simp] def RXM : Byte := 0x60

@[simp] def RX0IE : Byte := 0x01
@[simp] def RX1IE : Byte := 0x02
@[simp] def TX0IE : Byte := 0x04
@[simp] def ERRIE : Byte := 0x20
@[simp] def WAKIE : Byte := 0x40
@[simp] def MERRE : Byte := 0x80

@[simp] def RX0IF : Byte := 0x01
@[simp] def RX1IF : Byte := 0x02
@[simp] def TX0IF : Byte := 0x04
@[simp] def ERRIF : Byte := 0x20
@[simp] def WAKIF : Byte := 0x40
@[simp] def MERRF : Byte := 0x80

@[simp] def REQOP : Byte := 0xE0
@[simp] def REQOP_CONFIG : Byte := 0x80
@[simp] def REQOP_LISTEN : Byte := 0x60
@[simp] def REQOP_LOOPBACK : Byte := 0x40
@[simp] def REQOP_SLEEP : Byte := 0x20
@[simp] def REQOP_NORMAL : Byte := 0x00
@[simp] def CLKOUT_ENABLED : Byte := 0x04

@[simp] def RXM_RCV_ALL : Byte := 0x60
@[simp] def BUKT_ROLLOVER : Byte := 0x04
@[simp] def EXIDE_SET : Byte := 0x08

end Bits

section Test

variable (x : Byte)

/-- A test of a single bit, as the source writes it. -/
theorem and_twoPow_ne_zero (i : Nat) (hi : i < 8) :
    x &&& BitVec.twoPow 8 i ≠ 0#8 ↔ x.getLsbD i = true := by
  rw [BitVec.and_twoPow]
  cases hx : x.getLsbD i with
  | true =>
      have hne : BitVec.twoPow 8 i ≠ 0#8 := by
        intro h
        have hbit := congrArg (BitVec.getLsbD · i) h
        simp [hi] at hbit
      simpa using hne
  | false => simp

theorem and_bit0 : x &&& 0x01#8 ≠ 0#8 ↔ x.getLsbD 0 = true :=
  and_twoPow_ne_zero x 0 (by decide)

theorem and_bit1 : x &&& 0x02#8 ≠ 0#8 ↔ x.getLsbD 1 = true :=
  and_twoPow_ne_zero x 1 (by decide)

theorem and_bit2 : x &&& 0x04#8 ≠ 0#8 ↔ x.getLsbD 2 = true :=
  and_twoPow_ne_zero x 2 (by decide)

theorem and_bit3 : x &&& 0x08#8 ≠ 0#8 ↔ x.getLsbD 3 = true :=
  and_twoPow_ne_zero x 3 (by decide)

theorem and_bit5 : x &&& 0x20#8 ≠ 0#8 ↔ x.getLsbD 5 = true :=
  and_twoPow_ne_zero x 5 (by decide)

/-- The bits of a register after a `bitModify` that clears the bits of `m`. -/
theorem getLsbD_clear (m : Byte) (i : Nat) :
    (x &&& ~~~m ||| 0#8 &&& m).getLsbD i = (x.getLsbD i && !m.getLsbD i) := by
  by_cases hi : i < 8
  · simp [hi]
  · simp [BitVec.getLsbD_of_ge _ _ (Nat.le_of_not_lt hi)]

/-- The bits of a register in which the controller has set the bits of `m`. -/
theorem getLsbD_set (m : Byte) (i : Nat) :
    (x &&& ~~~m ||| m &&& m).getLsbD i = (x.getLsbD i || m.getLsbD i) := by
  by_cases hi : i < 8
  · simp only [BitVec.getLsbD_or, BitVec.getLsbD_and, BitVec.getLsbD_not, hi, decide_true,
      Bool.true_and, Bool.and_self]
    cases x.getLsbD i <;> cases m.getLsbD i <;> rfl
  · simp [BitVec.getLsbD_of_ge _ _ (Nat.le_of_not_lt hi)]

end Test

/-! ## SPI instructions -/

@[simp] def CAN_RESET : Byte := 0xC0
@[simp] def CAN_READ : Byte := 0x03
@[simp] def CAN_WRITE : Byte := 0x02
@[simp] def CAN_BIT_MODIFY : Byte := 0x05

/-! ## Register files -/

/-- `a` is the register at offset `k` from `b` exactly when their distance, modulo 256, is `k`. -/
theorem eq_add_ofNat_iff {a b : Byte} {k : Nat} (hk : k < 256) :
    a = b + BitVec.ofNat 8 k ↔ (a - b).toNat = k := by
  constructor
  · intro h
    rw [h, BitVec.add_comm, BitVec.add_sub_cancel, BitVec.toNat_ofNat]
    exact Nat.mod_eq_of_lt hk
  · intro h
    rw [← h, BitVec.ofNat_toNat, BitVec.setWidth_eq, BitVec.add_comm, BitVec.sub_add_cancel]

theorem add_ofNat_sub_toNat (b : Byte) {k : Nat} (hk : k < 256) :
    (b + BitVec.ofNat 8 k - b).toNat = k :=
  (eq_add_ofNat_iff hk).1 rfl

/-- The content of every register, by address. -/
abbrev Regs := Byte → Byte

namespace Regs

/-- Store a byte in the register at `addr`. -/
def write (r : Regs) (addr data : Byte) : Regs :=
  Function.update r addr data

/-- Replace the bits of the register at `addr` that `mask` selects. -/
def modify (r : Regs) (addr mask data : Byte) : Regs :=
  r.write addr (r addr &&& ~~~mask ||| data &&& mask)

@[simp] theorem write_self (r : Regs) (a d : Byte) : r.write a d a = d := by
  simp [write]

@[simp] theorem write_of_ne {a b : Byte} (h : b ≠ a) (r : Regs) (d : Byte) :
    r.write a d b = r b := by
  simp [write, h]

@[simp] theorem modify_self (r : Regs) (a m d : Byte) :
    r.modify a m d a = (r a &&& ~~~m ||| d &&& m) := by
  simp [modify]

@[simp] theorem modify_of_ne {a b : Byte} (h : b ≠ a) (r : Regs) (m d : Byte) :
    r.modify a m d b = r b := by
  simp [modify, h]

end Regs

end Mcp2515
end PicoCppSdk
