import Mathlib.Tactic.IntervalCases
import PicoCppSdk.Mcp2515.Driver

/-!
# Frame — CAN frames and the buffers that hold them

The bit layouts of the transmit buffer TXB0 and of the receive buffers RXB0 and RXB1, as the
controller uses them: which frame the TXB0 registers describe (`txFrame`), and which register
contents a received frame leaves behind (`CanFrame.image`).  Bits that a frame does not determine
keep an arbitrary residue of earlier traffic.

The driver's encoder and its two decoders are compared with these layouts, not with each other.
-/

namespace PicoCppSdk
namespace Mcp2515

open Atomic

/-! ## Frames -/

/-- A CAN frame on the wire.  Length codes 9 to 15 stand for eight data bytes; a remote frame has
a length code and no data. -/
structure CanFrame where
  extended : Bool
  ident : BitVec 29
  remote : Bool
  dlc : BitVec 4
  data : List Byte
  ident_le : extended = false → ident ≤ 0x7FF#29
  data_length : data.length = if remote then 0 else min dlc.toNat 8
  deriving DecidableEq

namespace CanFrame

@[ext] theorem ext' {f g : CanFrame} (hext : f.extended = g.extended) (hid : f.ident = g.ident)
    (hrtr : f.remote = g.remote) (hdlc : f.dlc = g.dlc) (hdata : f.data = g.data) : f = g := by
  cases f
  cases g
  subst hext hid hrtr hdlc hdata
  rfl

end CanFrame

/-- The 29 identifier bits from `SIDH`, `SIDL`, `EID8` and `EID0`. -/
def identExtended (sidh sidl eid8 eid0 : Byte) : BitVec 29 :=
  sidh ++ sidl.extractLsb' 5 3 ++ sidl.extractLsb' 0 2 ++ eid8 ++ eid0

/-- The 11 identifier bits from `SIDH` and `SIDL`. -/
def identStandard (sidh sidl : Byte) : BitVec 11 :=
  sidh ++ sidl.extractLsb' 5 3

/-- The frame that the registers of TXB0 describe: extended iff `SIDL.EXIDE` is set, remote iff
`DLC.RTR` is. -/
def txFrame (r : Regs) : CanFrame where
  extended := (r TXB0SIDL).getLsbD 3
  ident :=
    if (r TXB0SIDL).getLsbD 3 then
      identExtended (r TXB0SIDH) (r TXB0SIDL) (r TXB0EID8) (r TXB0EID0)
    else
      (identStandard (r TXB0SIDH) (r TXB0SIDL)).setWidth 29
  remote := (r TXB0DLC).getLsbD 6
  dlc := (r TXB0DLC).setWidth 4
  data :=
    if (r TXB0DLC).getLsbD 6 then
      []
    else
      (List.range (min ((r TXB0DLC).setWidth 4).toNat 8)).map fun i => r (TXB0D0 + BitVec.ofNat 8 i)
  ident_le := by
    intro h
    have hlt := (identStandard (r TXB0SIDH) (r TXB0SIDL)).isLt
    simp only [h, Bool.false_eq_true, if_false, BitVec.le_def, BitVec.toNat_setWidth]
    exact le_trans (Nat.mod_le _ _) (Nat.lt_succ_iff.1 hlt)
  data_length := by
    split <;> simp

/-! ## Receive buffers -/

inductive RxBuf where
  | b0
  | b1
  deriving DecidableEq, Repr

/-- The address of the first of the thirteen registers that a received frame fills. -/
def RxBuf.base : RxBuf → Byte
  | .b0 => RXB0SIDH
  | .b1 => RXB1SIDH

/-- The thirteen registers `SIDH`, `SIDL`, `EID8`, `EID0`, `DLC`, `D0` … `D7` of a buffer. -/
structure RxImage where
  sidh : Byte
  sidl : Byte
  eid8 : Byte
  eid0 : Byte
  dlc : Byte
  data : Fin 8 → Byte
  deriving DecidableEq

namespace RxImage

/-- The register at offset `k` from `SIDH`. -/
def byte (img : RxImage) : Nat → Byte
  | 0 => img.sidh
  | 1 => img.sidl
  | 2 => img.eid8
  | 3 => img.eid0
  | 4 => img.dlc
  | k + 5 => if h : k < 8 then img.data ⟨k, h⟩ else 0

end RxImage

/-- The controller fills the receive buffer `n`. -/
def Regs.load (r : Regs) (n : RxBuf) (img : RxImage) : Regs := fun a =>
  if (a - n.base).toNat < 13 then img.byte (a - n.base).toNat else r a

theorem Regs.load_base (r : Regs) (n : RxBuf) (img : RxImage) {k : Nat} (hk : k < 13) :
    r.load n img (n.base + BitVec.ofNat 8 k) = img.byte k := by
  have hoff : (n.base + BitVec.ofNat 8 k - n.base).toNat = k :=
    add_ofNat_sub_toNat n.base (by omega)
  simp only [Regs.load, hoff, hk, if_true]

theorem Regs.load_of_outside {a : Byte} {n : RxBuf} (h : ¬ (a - n.base).toNat < 13) (r : Regs)
    (img : RxImage) : r.load n img a = r a := by
  simp only [Regs.load, if_neg h]

/-- `SIDL` of a receive buffer: identifier bits in 7:5 and 1:0, `SRR`, `IDE` and an unused bit
between them. -/
def packSidl (sid : BitVec 3) (srr ide u : BitVec 1) (eid : BitVec 2) : Byte :=
  sid ++ srr ++ ide ++ u ++ eid

/-- `DLC` of a receive buffer: `RTR` in bit 6 and the length code in 3:0. -/
def packDlc (u rtr : BitVec 1) (rb : BitVec 2) (dlc : BitVec 4) : Byte :=
  u ++ rtr ++ rb ++ dlc

/-- The registers that a received frame leaves in a buffer which held `old`: the identifier bits,
`SRR` (standard) or `RTR` (extended) for a remote frame, `IDE`, the length code and the data. -/
def CanFrame.image (f : CanFrame) (old : RxImage) : RxImage where
  sidh := if f.extended then f.ident.extractLsb' 21 8 else f.ident.extractLsb' 3 8
  sidl :=
    if f.extended then
      packSidl (f.ident.extractLsb' 18 3) (old.sidl.extractLsb' 4 1) 1#1
        (old.sidl.extractLsb' 2 1) (f.ident.extractLsb' 16 2)
    else
      packSidl (f.ident.extractLsb' 0 3) (BitVec.ofBool f.remote) 0#1
        (old.sidl.extractLsb' 2 1) (old.sidl.extractLsb' 0 2)
  eid8 := if f.extended then f.ident.extractLsb' 8 8 else old.eid8
  eid0 := if f.extended then f.ident.extractLsb' 0 8 else old.eid0
  dlc :=
    packDlc (old.dlc.extractLsb' 7 1)
      (if f.extended then BitVec.ofBool f.remote else old.dlc.extractLsb' 6 1)
      (old.dlc.extractLsb' 4 2) f.dlc
  data := fun i => f.data.getD i (old.data i)

end Mcp2515
end PicoCppSdk
