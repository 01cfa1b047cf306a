import PicoCppSdk.Mcp2515.Chip
import PicoCppSdk.Mcp2515.Locking

/-!
# Decoder — where the controller is in a transaction

The bytes of a transaction take the decoder of the controller from one phase to the next.  All of
them but the last change nothing else, and the last one has the effect of the whole transaction.
-/

namespace PicoCppSdk
namespace Mcp2515

namespace Wire

/-- The bytes of a transaction. -/
def bytes : BusAct → List Byte
  | .readByte addr => [CAN_READ, addr, 0#8]
  | .writeByte addr data => [CAN_WRITE, addr, data]
  | .bitModify addr mask data => [CAN_BIT_MODIFY, addr, mask, data]
  | .resetMcp2515 => [CAN_WRITE, CAN_RESET]
  | .lock => []
  | .unlock => []

/-- What a transaction returns, the last answer being `x`. -/
def answer : (a : BusAct) → Byte → a.Ans
  | .readByte _, x => x
  | .writeByte _ _, _ => ()
  | .bitModify _ _ _, _ => ()
  | .resetMcp2515, _ => ()
  | .lock, _ => ()
  | .unlock, _ => ()

end Wire

/-- The controller while it is not selected. -/
def Chip.unselected (c : Chip) : Chip :=
  { c with phase := .ignore }

/-! ## Bytes -/

/-- The bytes of a transaction that are still to be sent, and where the decoder is. -/
inductive Sends : BusAct → List Byte → Phase → Prop where
  | readInstruction (addr : Byte) : Sends (.readByte addr) [CAN_READ, addr, 0#8] .instruction
  | readAddr (addr : Byte) : Sends (.readByte addr) [addr, 0#8] .readAddr
  | readData (addr : Byte) : Sends (.readByte addr) [0#8] (.readData addr)
  | writeInstruction (addr data : Byte) :
      Sends (.writeByte addr data) [CAN_WRITE, addr, data] .instruction
  | writeAddr (addr data : Byte) : Sends (.writeByte addr data) [addr, data] .writeAddr
  | writeData (addr data : Byte) : Sends (.writeByte addr data) [data] (.writeData addr)
  | modifyInstruction (addr mask data : Byte) :
      Sends (.bitModify addr mask data) [CAN_BIT_MODIFY, addr, mask, data] .instruction
  | modifyAddr (addr mask data : Byte) :
      Sends (.bitModify addr mask data) [addr, mask, data] .modifyAddr
  | modifyMask (addr mask data : Byte) :
      Sends (.bitModify addr mask data) [mask, data] (.modifyMask addr)
  | modifyData (addr mask data : Byte) :
      Sends (.bitModify addr mask data) [data] (.modifyData addr mask)
  | resetInstruction : Sends .resetMcp2515 [CAN_WRITE, CAN_RESET] .instruction
  | resetAddr : Sends .resetMcp2515 [CAN_RESET] .writeAddr

section Bytes

variable {por : Reset} {z : Byte} {c : Chip} {a : BusAct} {b : Byte} {rest : List Byte}

theorem Sends.start (ha : a.Primitive) : Sends a (Wire.bytes a) .instruction := by
  cases a with
  | readByte addr => exact .readInstruction addr
  | writeByte addr data => exact .writeInstruction addr data
  | bitModify addr mask data => exact .modifyInstruction addr mask data
  | resetMcp2515 => exact .resetInstruction
  | lock => exact ha.elim
  | unlock => exact ha.elim

theorem Wire.bytes_eq_cons (ha : a.Primitive) : ∃ b rest, Wire.bytes a = b :: rest := by
  cases a with
  | lock => exact ha.elim
  | unlock => exact ha.elim
  | _ => exact ⟨_, _, rfl⟩

/-- A byte before the last one changes nothing but the state of the decoder. -/
theorem Sends.next (h : Sends a (b :: rest) c.phase) (hrest : rest ≠ []) :
    Sends a rest (c.respond por z b).2.phase ∧
      (c.respond por z b).2.unselected = c.unselected := by
  rcases c with ⟨regs, mode, phase⟩
  cases h with
  | readInstruction addr => exact ⟨.readAddr addr, rfl⟩
  | readAddr => exact ⟨.readData b, rfl⟩
  | readData addr => exact absurd rfl hrest
  | writeInstruction addr data => exact ⟨.writeAddr addr data, rfl⟩
  | writeAddr _ data => exact ⟨.writeData b data, rfl⟩
  | writeData addr => exact absurd rfl hrest
  | modifyInstruction addr mask data => exact ⟨.modifyAddr addr mask data, rfl⟩
  | modifyAddr _ mask data => exact ⟨.modifyMask b mask data, rfl⟩
  | modifyMask addr _ data => exact ⟨.modifyData addr b data, rfl⟩
  | modifyData addr mask => exact absurd rfl hrest
  | resetInstruction => exact ⟨.resetAddr, rfl⟩
  | resetAddr => exact absurd rfl hrest

theorem Chip.unselected_write (c : Chip) (addr data : Byte) :
    c.unselected.write addr data = (c.write addr data).unselected :=
  c.write_phase .ignore addr data

/-- The last byte has the effect of the whole transaction. -/
theorem Sends.last (h : Sends a [b] c.phase) :
    (Wire.answer a (c.respond por z b).1, (c.respond por z b).2.unselected) =
      (Chip.slave por z).act a c.unselected := by
  rcases c with ⟨regs, mode, phase⟩
  cases h with
  | readData addr => rfl
  | writeData addr =>
      rw [Chip.act_writeByte, Chip.unselected_write]
      rfl
  | modifyData addr mask =>
      rw [Chip.act_bitModify, Chip.unselected_write]
      rfl
  | resetAddr => rfl

end Bytes

end Mcp2515
end PicoCppSdk
