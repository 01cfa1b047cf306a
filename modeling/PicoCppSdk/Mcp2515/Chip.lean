import PicoCppSdk.Mcp2515.Wire

/-!
# Chip — the controller behind its SPI instruction decoder

After chip select the first byte is the instruction.  `CAN_RESET` restores the reset values and
enters configuration mode; `CAN_WRITE` and `CAN_READ` are followed by an address and data bytes,
`CAN_BIT_MODIFY` by an address, a mask and a byte of data.  The bit timing registers, filters and
masks accept writes only in configuration mode, which is entered only while no transmission is
pending.

`Reset` says which registers have a reset value, and which; the others keep their content.
-/

namespace PicoCppSdk
namespace Mcp2515

open FullDuplex

/-! ## State -/

inductive Mode where
  | normal
  | sleep
  | loopback
  | listenOnly
  | configuration
  deriving DecidableEq, Repr

/-- What the decoder takes the next byte for. -/
inductive Phase where
  | instruction
  | readAddr
  | readData (addr : Byte)
  | writeAddr
  | writeData (addr : Byte)
  | modifyAddr
  | modifyMask (addr : Byte)
  | modifyData (addr mask : Byte)
  | ignore

structure Chip where
  regs : Regs
  mode : Mode
  phase : Phase

/-- The reset values of the registers that have one. -/
abbrev Reset := Byte → Option Byte

/-- As documented: the filters and the identifiers and data of the buffers have no reset value, and
`CANSTAT` follows the mode; `CANCTRL` and `CANSTAT` have aliases at the end of every row. -/
def resetValues : Reset := fun a =>
  if a = CANCTRL then some 0x87#8
  else if 14 ≤ a.toNat % 16 then none
  else if a.toNat < 0x0C ∨ (0x10 ≤ a.toNat ∧ a.toNat < 0x1C) then none
  else if 0x30 ≤ a.toNat ∧ a.toNat % 16 ≠ 0 then none
  else some 0x00#8

/-- The mode that the `REQOP` bits of a value of `CANCTRL` ask for. -/
def Mode.requested (canctrl : Byte) : Option Mode :=
  if canctrl &&& REQOP = REQOP_NORMAL then some .normal
  else if canctrl &&& REQOP = REQOP_SLEEP then some .sleep
  else if canctrl &&& REQOP = REQOP_LOOPBACK then some .loopback
  else if canctrl &&& REQOP = REQOP_LISTEN then some .listenOnly
  else if canctrl &&& REQOP = REQOP_CONFIG then some .configuration
  else none

/-- Registers that accept writes only in configuration mode. -/
def ConfigOnly (a : Byte) : Prop :=
  a = CNF1 ∨ a = CNF2 ∨ a = CNF3 ∨ a.toNat < 0x0C ∨ (0x10 ≤ a.toNat ∧ a.toNat < 0x1C) ∨
    (0x20 ≤ a.toNat ∧ a.toNat < 0x28)

instance (a : Byte) : Decidable (ConfigOnly a) :=
  inferInstanceAs (Decidable (_ ∨ _))

namespace Chip

/-- A transmit buffer has its request set. -/
def Transmitting (c : Chip) : Prop :=
  c.regs TXB0CTRL &&& TXREQ ≠ 0#8 ∨ c.regs TXB1CTRL &&& TXREQ ≠ 0#8 ∨
    c.regs TXB2CTRL &&& TXREQ ≠ 0#8

instance (c : Chip) : Decidable c.Transmitting :=
  inferInstanceAs (Decidable (_ ∨ _))

/-! ## Instructions -/

def reset (por : Reset) (c : Chip) : Chip where
  regs a := (por a).getD (c.regs a)
  mode := .configuration
  phase := .ignore

/-- The mode after a write of `canctrl` to `CANCTRL`. -/
def modeAfter (c : Chip) (canctrl : Byte) : Mode :=
  match Mode.requested canctrl with
  | some .configuration => if c.Transmitting then c.mode else .configuration
  | some m => m
  | none => c.mode

def write (c : Chip) (addr data : Byte) : Chip :=
  if ConfigOnly addr ∧ c.mode ≠ .configuration then
    c
  else
    { c with
      regs := c.regs.write addr data
      mode := if addr = CANCTRL then c.modeAfter data else c.mode }

/-- The answer to one byte while the chip is selected, and its effect.  `z` is what the processor
sees while the chip drives no answer. -/
def respond (por : Reset) (z : Byte) (c : Chip) (b : Byte) : Byte × Chip :=
  match c.phase with
  | .instruction =>
      if b = CAN_RESET then (z, c.reset por)
      else if b = CAN_READ then (z, { c with phase := .readAddr })
      else if b = CAN_WRITE then (z, { c with phase := .writeAddr })
      else if b = CAN_BIT_MODIFY then (z, { c with phase := .modifyAddr })
      else (z, { c with phase := .ignore })
  | .readAddr => (z, { c with phase := .readData b })
  | .readData addr => (c.regs addr, { c with phase := .readData (addr + 1#8) })
  | .writeAddr => (z, { c with phase := .writeData b })
  | .writeData addr => (z, { c.write addr b with phase := .writeData (addr + 1#8) })
  | .modifyAddr => (z, { c with phase := .modifyMask b })
  | .modifyMask addr => (z, { c with phase := .modifyData addr b })
  | .modifyData addr mask =>
      (z, { c.write addr (c.regs addr &&& ~~~mask ||| b &&& mask) with phase := .ignore })
  | .ignore => (z, c)

/-- The chip on the bus. -/
def slave (por : Reset) (z : Byte) : Slave Chip where
  select c := { c with phase := .instruction }
  deselect c := { c with phase := .ignore }
  respond := respond por z

/-! ## Transactions -/

section Act

variable (por : Reset) (z : Byte) (c : Chip)

theorem write_phase (p : Phase) (addr data : Byte) :
    ({ c with phase := p } : Chip).write addr data =
      { c.write addr data with phase := p } := by
  by_cases h : ConfigOnly addr ∧ c.mode ≠ .configuration
  · simp only [write, if_pos h]
  · simp only [write, if_neg h]
    rfl

theorem act_writeByte (addr data : Byte) :
    (slave por z).act (.writeByte addr data) c =
      ((), { c.write addr data with phase := .ignore }) := by
  have hwrite := c.write_phase (.writeData addr) addr data
  simp only [Slave.act, Slave.bracket, slave, respondAll, respond, if_pos, if_neg, hwrite,
    show CAN_WRITE ≠ CAN_RESET by decide, show CAN_WRITE ≠ CAN_READ by decide, not_false_eq_true]

theorem act_bitModify (addr mask data : Byte) :
    (slave por z).act (.bitModify addr mask data) c =
      ((), { c.write addr (c.regs addr &&& ~~~mask ||| data &&& mask) with phase := .ignore }) := by
  have hwrite := c.write_phase (.modifyData addr mask) addr
    (c.regs addr &&& ~~~mask ||| data &&& mask)
  simp only [Slave.act, Slave.bracket, slave, respondAll, respond, if_pos, if_neg, hwrite,
    show CAN_BIT_MODIFY ≠ CAN_RESET by decide, show CAN_BIT_MODIFY ≠ CAN_READ by decide,
    show CAN_BIT_MODIFY ≠ CAN_WRITE by decide, not_false_eq_true]

/-- `resetMcp2515` sends `CAN_RESET` where the decoder expects an address: nothing happens. -/
theorem act_resetMcp2515 :
    (slave por z).act .resetMcp2515 c = ((), { c with phase := .ignore }) := rfl

/-- The reset instruction on its own resets. -/
theorem bracket_reset :
    ((slave por z).bracket [CAN_RESET] c).2 = c.reset por := rfl

end Act

/-! ## The register file -/

/-- The transaction writes a register that is open in every mode, if it writes at all. -/
def Open : BusAct → Prop
  | .writeByte addr _ => ¬ ConfigOnly addr
  | .bitModify addr _ _ => ¬ ConfigOnly addr
  | _ => True

variable {por : Reset} {z : Byte} {c : Chip}

theorem regs_write {addr : Byte} (h : ¬ ConfigOnly addr) (data : Byte) :
    (c.write addr data).regs = c.regs.write addr data := by
  rw [write, if_neg fun hlocked => h hlocked.1]

/-- On the registers that are open, a transaction does what `BusAct.onRegs` says. -/
theorem act_regs {a : BusAct} (h : Open a) :
    (((slave por z).act a c).1, ((slave por z).act a c).2.regs) = a.onRegs c.regs := by
  cases a with
  | writeByte addr data =>
      rw [act_writeByte]
      exact Prod.ext rfl (regs_write h data)
  | bitModify addr mask data =>
      rw [act_bitModify]
      exact Prod.ext rfl (regs_write h _)
  | _ => rfl

/-- A method that writes open registers only does on the chip what it does on a register file. -/
theorem run_regs {α : Type} (p : Driver α) (h : p.Performs BusAct.onRegs Open c.regs) :
    ((p.run (slave por z).act c).1, (p.run (slave por z).act c).2.regs) =
      p.run BusAct.onRegs c.regs := by
  induction p generalizing c with
  | ret x => rfl
  | act a k ih =>
      rcases h with ⟨hopen, hrest⟩
      have hact : (((slave por z).act a c).1, ((slave por z).act a c).2.regs) =
          a.onRegs c.regs :=
        act_regs hopen
      rw [Atomic.Prog.run_act, Atomic.Prog.run_act, ← hact]
      refine ih _ ?_
      rw [← hact] at hrest
      exact hrest

/-- With DMA, all the way from the local variables of the primitives to the registers. -/
theorem compile_regs {α : Type} {L : Locals} {m m' : Nat → Byte} {c' : Chip} {p : Driver α} {x : α}
    (h : p.Performs BusAct.onRegs Open c.regs)
    (hrun : (Wire.compile L p).Eval (SpiAct.Outcome (slave por z) true) (m, c) x (m', c')) :
    (x, c'.regs) = p.run BusAct.onRegs c.regs := by
  have hact := (Wire.compile_outcome L p x c').1 ⟨m', hrun⟩
  rw [← run_regs p h, ← hact]

end Chip
end Mcp2515
end PicoCppSdk
