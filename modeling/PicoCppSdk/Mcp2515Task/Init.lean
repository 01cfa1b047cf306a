import PicoCppSdk.Mcp2515.Access
import PicoCppSdk.Mcp2515.Chip
import PicoCppSdk.Mcp2515Task.Program

/-!
# Init — `Mcp2515Task::initialInTask` on a controller in any state

The controller may come from a previous life of the program: in any mode, with any register
contents, with transmissions pending.  `resetMcp2515` does not reset it, so what it was doing
before decides whether the initialisation works.  The controller does nothing on its own meanwhile.
-/

namespace PicoCppSdk
namespace Mcp2515Task

open Atomic Mcp2515

/-! ## Bit timing -/

inductive Oscillator where
  | MHZ8
  | MHZ16

inductive Bitrate where
  | KBPS5
  | KBPS10
  | KBPS20
  | KBPS50
  | KBPS100
  | KBPS125
  | KBPS250
  | KBPS500
  | KBPS1000

inductive RxBufferType where
  | Rollover
  | Independent

/-- A row of the bit timing tables: `CNF1`, `CNF2`, `CNF3`. -/
structure BitTiming where
  cnf1 : Byte
  cnf2 : Byte
  cnf3 : Byte

def bitrateToReg_8MHz : Bitrate → BitTiming
  | .KBPS5 => ⟨0xA7, 0xBF, 0x07⟩
  | .KBPS10 => ⟨0x31, 0xA4, 0x04⟩
  | .KBPS20 => ⟨0x18, 0xA4, 0x04⟩
  | .KBPS50 => ⟨0x09, 0xA4, 0x04⟩
  | .KBPS100 => ⟨0x04, 0x9E, 0x03⟩
  | .KBPS125 => ⟨0x03, 0x9E, 0x03⟩
  | .KBPS250 => ⟨0x01, 0x1E, 0x03⟩
  | .KBPS500 => ⟨0x00, 0x9E, 0x03⟩
  | .KBPS1000 => ⟨0x00, 0x82, 0x02⟩

def bitrateToReg_16MHz : Bitrate → BitTiming
  | .KBPS5 => ⟨0x3F, 0xFF, 0x87⟩
  | .KBPS10 => ⟨0x1F, 0xFF, 0x87⟩
  | .KBPS20 => ⟨0x0F, 0xFF, 0x87⟩
  | .KBPS50 => ⟨0x07, 0xFA, 0x87⟩
  | .KBPS100 => ⟨0x03, 0xFA, 0x87⟩
  | .KBPS125 => ⟨0x03, 0xF0, 0x86⟩
  | .KBPS250 => ⟨0x41, 0xF1, 0x85⟩
  | .KBPS500 => ⟨0x00, 0xF0, 0x86⟩
  | .KBPS1000 => ⟨0x00, 0xD0, 0x82⟩

/-- The row that the constructor makes `bitrateAddr` point to. -/
def bitrateAddr (oscillator : Oscillator) (bitrate : Bitrate) : BitTiming :=
  match oscillator with
  | .MHZ8 => bitrateToReg_8MHz bitrate
  | .MHZ16 => bitrateToReg_16MHz bitrate

/-! ## The driver's part -/

def setMcp2515Bitrate (row : BitTiming) : Driver Unit := do
  writeByte CNF1 row.cnf1
  writeByte CNF2 row.cnf2
  writeByte CNF3 row.cnf3

def clearInterrupts (interruptMask : Byte) : Driver Unit :=
  writeByte CANINTF interruptMask

def enableInterrupts (interruptMask : Byte) : Driver Unit :=
  writeByte CANINTE interruptMask

/-! ## `initialInTask` -/

inductive InitAct where
  | bus (a : BusAct)
  | createBinary (m : Sem)
  | createCounting (m : Sem) (max initial : Nat)
  | delay (ms : Nat)
  /-- `gpio_init(_intPin)` -/
  | gpioInit
  | gpioSetPulls (up down : Bool)
  /-- `gpioRegisterIrqCallback(_intPin, …)` with a callback that runs `irqHandler` -/
  | registerIrqCallback (events : BitVec 32)

abbrev InitAct.Ans : InitAct → Type
  | .bus a => a.Ans
  | _ => Unit

abbrev InitCode (α : Type) := Prog InitAct InitAct.Ans α

/-- A driver method called during the initialisation. -/
def bus {α : Type} : Driver α → InitCode α
  | .ret x => .ret x
  | .act a k => .act (.bus a) fun r => bus (k r)

def act (a : InitAct) : InitCode a.Ans := .act a .ret

def GPIO_IRQ_EDGE_FALL : BitVec 32 := 0x4

def initialInTask (row : BitTiming) (rxBufferType : RxBufferType) : InitCode Unit := do
  act (.createBinary .intSemaphore)
  act (.createBinary .txSemaphore)
  act (.createCounting .rxSemaphore 2 0)
  bus resetMcp2515
  act (.delay 100)
  bus (setMcp2515Bitrate row)
  bus (clearInterrupts 0#8)
  match rxBufferType with
  -- With rollover `RXB1CTRL` is left as it is.
  | .Rollover => bus (writeByte RXB0CTRL (RXM_RCV_ALL ||| BUKT_ROLLOVER))
  | .Independent => do
      bus (writeByte RXB0CTRL RXM_RCV_ALL)
      bus (writeByte RXB1CTRL RXM_RCV_ALL)
  act .gpioInit
  act (.gpioSetPulls true false)
  act (.registerIrqCallback GPIO_IRQ_EDGE_FALL)
  bus (enableInterrupts (TX0IE ||| RX0IE ||| RX1IE ||| MERRE ||| WAKIE ||| ERRIE))
  bus (writeByte CANCTRL (REQOP_NORMAL ||| CLKOUT_ENABLED))

/-- Only the bus transactions reach the controller. -/
def InitAct.onChip (por : Reset) (z : Byte) : (a : InitAct) → Chip → a.Ans × Chip
  | .bus a, c => (Chip.slave por z).act a c
  | .createBinary _, c => ((), c)
  | .createCounting _ _ _, c => ((), c)
  | .delay _, c => ((), c)
  | .gpioInit, c => ((), c)
  | .gpioSetPulls _ _, c => ((), c)
  | .registerIrqCallback _, c => ((), c)

/-- The controller after `initialInTask`. -/
def initialised (por : Reset) (z : Byte) (row : BitTiming) (rxBufferType : RxBufferType)
    (c : Chip) : Chip :=
  ((initialInTask row rxBufferType).run (InitAct.onChip por z) c).2

/-! ## What the initialisation is for -/

/-- The registers that `initialInTask` writes. -/
def written : RxBufferType → List Byte
  | .Rollover => [CNF1, CNF2, CNF3, CANINTF, RXB0CTRL, CANINTE, CANCTRL]
  | .Independent => [CNF1, CNF2, CNF3, CANINTF, RXB0CTRL, RXB1CTRL, CANINTE, CANCTRL]

/-- The value that `RXB0CTRL` is to have. -/
def rxb0ctrl : RxBufferType → Byte
  | .Rollover => RXM_RCV_ALL ||| BUKT_ROLLOVER
  | .Independent => RXM_RCV_ALL

/-- The value that `RXB1CTRL` is to have, which is the reset value if it is not written. -/
def rxb1ctrl (por : Reset) : RxBufferType → Option Byte
  | .Rollover => por RXB1CTRL
  | .Independent => some RXM_RCV_ALL

/-- Nothing of the controller's previous life is left. -/
structure Initialised (por : Reset) (row : BitTiming) (rxBufferType : RxBufferType) (c : Chip) :
    Prop where
  cnf1 : c.regs CNF1 = row.cnf1
  cnf2 : c.regs CNF2 = row.cnf2
  cnf3 : c.regs CNF3 = row.cnf3
  rxb0 : c.regs RXB0CTRL = rxb0ctrl rxBufferType
  rxb1 : ∀ v, rxb1ctrl por rxBufferType = some v → c.regs RXB1CTRL = v
  noRequest : ¬ c.Transmitting
  untouched : ∀ a v, a ∉ written rxBufferType → por a = some v → c.regs a = v

/-- What the previous life must have left for that. -/
structure Prior (por : Reset) (row : BitTiming) (rxBufferType : RxBufferType) (c : Chip) :
    Prop where
  timing : c.mode = .configuration ∨
    (c.regs CNF1 = row.cnf1 ∧ c.regs CNF2 = row.cnf2 ∧ c.regs CNF3 = row.cnf3)
  untouched : ∀ a v, a ∉ written rxBufferType → por a = some v → c.regs a = v

/-! ## The writes -/

/-- The bit timing. -/
def timing (row : BitTiming) : List (Byte × Byte) :=
  [(CNF1, row.cnf1), (CNF2, row.cnf2), (CNF3, row.cnf3)]

/-- What `initialInTask` writes after the bit timing. -/
def settings : RxBufferType → List (Byte × Byte)
  | .Rollover =>
      [(CANINTF, 0#8), (RXB0CTRL, RXM_RCV_ALL ||| BUKT_ROLLOVER),
        (CANINTE, TX0IE ||| RX0IE ||| RX1IE ||| MERRE ||| WAKIE ||| ERRIE),
        (CANCTRL, REQOP_NORMAL ||| CLKOUT_ENABLED)]
  | .Independent =>
      [(CANINTF, 0#8), (RXB0CTRL, RXM_RCV_ALL), (RXB1CTRL, RXM_RCV_ALL),
        (CANINTE, TX0IE ||| RX0IE ||| RX1IE ||| MERRE ||| WAKIE ||| ERRIE),
        (CANCTRL, REQOP_NORMAL ||| CLKOUT_ENABLED)]

/-- Write after write. -/
def writes (c : Chip) : List (Byte × Byte) → Chip
  | [] => c
  | w :: ws => writes (c.write w.1 w.2) ws

section Writes

variable (por : Reset) (z : Byte) (row : BitTiming) (rxBufferType : RxBufferType) (c : Chip)

theorem initialised_eq : initialised por z row rxBufferType c =
    { writes (writes c (timing row)) (settings rxBufferType) with phase := .ignore } := by
  cases rxBufferType <;>
    simp [initialised, initialInTask, act, bus, resetMcp2515, setMcp2515Bitrate, clearInterrupts,
      enableInterrupts, writeByte, InitAct.onChip, Chip.act_resetMcp2515, Chip.act_writeByte,
      Chip.write_phase, writes, timing, settings]

variable {c}

theorem regs_writes_of_open {ws : List (Byte × Byte)} (h : ∀ w ∈ ws, ¬ ConfigOnly w.1) :
    (writes c ws).regs = c.regs.writes ws := by
  induction ws generalizing c with
  | nil => rfl
  | cons w ws ih =>
      have hw : ¬ ConfigOnly w.1 := h w List.mem_cons_self
      rw [writes, ih fun v hv => h v (List.mem_cons_of_mem w hv), Chip.regs_write hw]
      rfl

theorem settings_open : ∀ w ∈ settings rxBufferType, ¬ ConfigOnly w.1 := by
  cases rxBufferType <;> simp [settings, ConfigOnly]

/-- In configuration mode the bit timing is written, in any other mode it is not. -/
theorem regs_writes_timing :
    (writes c (timing row)).regs =
      if c.mode = .configuration then c.regs.writes (timing row) else c.regs := by
  by_cases hmode : c.mode = .configuration
  · simp [writes, timing, Chip.write, hmode, Regs.writes]
  · simp [writes, timing, Chip.write, hmode, ConfigOnly]

theorem regs_initialised : (initialised por z row rxBufferType c).regs =
    (if c.mode = .configuration then c.regs.writes (timing row) else c.regs).writes
      (settings rxBufferType) := by
  rw [initialised_eq, ← regs_writes_timing]
  exact regs_writes_of_open (settings_open rxBufferType)

/-- `written` lists the addresses of the writes. -/
theorem written_eq :
    written rxBufferType = (timing row ++ settings rxBufferType).map Prod.fst := by
  cases rxBufferType <;> rfl

theorem regs_of_untouched {a : Byte} (ha : a ∉ written rxBufferType) :
    (initialised por z row rxBufferType c).regs a = c.regs a := by
  rw [written_eq row rxBufferType, List.map_append, List.mem_append, not_or] at ha
  rw [regs_initialised, Regs.writes_of_notMem ha.2]
  split
  · exact Regs.writes_of_notMem ha.1 _
  · rfl

/-- A bit timing register: the row in configuration mode, else what was there. -/
theorem regs_of_timing {a : Byte} (ha : a ∉ (settings rxBufferType).map Prod.fst) :
    (initialised por z row rxBufferType c).regs a =
      if c.mode = .configuration then c.regs.writes (timing row) a else c.regs a := by
  rw [regs_initialised, Regs.writes_of_notMem ha]
  split <;> rfl

end Writes

/-! ## Which previous lives are overcome -/

section Criterion

variable {por : Reset} {z : Byte} {row : BitTiming} {rxBufferType : RxBufferType} {c : Chip}

theorem timing_notMem_settings (rxBufferType : RxBufferType) :
    ∀ a ∈ [CNF1, CNF2, CNF3], a ∉ (settings rxBufferType).map Prod.fst := by
  cases rxBufferType <;> simp [settings]

theorem txbctrl_notMem_written (rxBufferType : RxBufferType) :
    ∀ a ∈ [TXB0CTRL, TXB1CTRL, TXB2CTRL], a ∉ written rxBufferType := by
  cases rxBufferType <;> simp [written]

theorem prior_of_initialised
    (h : Initialised por row rxBufferType (initialised por z row rxBufferType c)) :
    Prior por row rxBufferType c where
  timing := by
    by_cases hmode : c.mode = .configuration
    · exact Or.inl hmode
    · have hkept : ∀ a ∈ [CNF1, CNF2, CNF3],
          (initialised por z row rxBufferType c).regs a = c.regs a := by
        intro a ha
        rw [regs_of_timing por z row rxBufferType (timing_notMem_settings rxBufferType a ha),
          if_neg hmode]
      refine Or.inr ⟨?_, ?_, ?_⟩
      · rw [← hkept CNF1 (by decide), h.cnf1]
      · rw [← hkept CNF2 (by decide), h.cnf2]
      · rw [← hkept CNF3 (by decide), h.cnf3]
  untouched a v ha hv := by
    rw [← regs_of_untouched por z row rxBufferType ha]
    exact h.untouched a v ha hv

theorem initialised_of_prior
    (htx : ∀ a ∈ [TXB0CTRL, TXB1CTRL, TXB2CTRL], ∃ v, por a = some v ∧ v &&& TXREQ = 0#8)
    (h : Prior por row rxBufferType c) :
    Initialised por row rxBufferType (initialised por z row rxBufferType c) := by
  have huntouched : ∀ a v, a ∉ written rxBufferType → por a = some v →
      (initialised por z row rxBufferType c).regs a = v := by
    intro a v ha hv
    rw [regs_of_untouched por z row rxBufferType ha]
    exact h.untouched a v ha hv
  have hcnf : ∀ a ∈ [CNF1, CNF2, CNF3], (initialised por z row rxBufferType c).regs a =
      if c.mode = .configuration then c.regs.writes (timing row) a else c.regs a :=
    fun a ha => regs_of_timing por z row rxBufferType (timing_notMem_settings rxBufferType a ha)
  -- The timing is taken over in configuration mode only; otherwise it was there before.
  refine ⟨?_, ?_, ?_, ?_, ?_, ?_, huntouched⟩
  · rw [hcnf CNF1 (by decide)]
    split
    · rfl
    · rename_i hmode
      exact (h.timing.resolve_left hmode).1
  · rw [hcnf CNF2 (by decide)]
    split
    · rfl
    · rename_i hmode
      exact (h.timing.resolve_left hmode).2.1
  · rw [hcnf CNF3 (by decide)]
    split
    · rfl
    · rename_i hmode
      exact (h.timing.resolve_left hmode).2.2
  · rw [regs_initialised]
    cases rxBufferType <;> rfl
  · cases rxBufferType with
    | Rollover =>
        -- `init` writes `RXB1CTRL` for independent buffers only.
        exact fun v hv => huntouched RXB1CTRL v (by decide) hv
    | Independent =>
        intro v hv
        rw [regs_initialised, ← Option.some.inj hv]
        rfl
  · have hclear : ∀ a ∈ [TXB0CTRL, TXB1CTRL, TXB2CTRL],
        (initialised por z row rxBufferType c).regs a &&& TXREQ = 0#8 := by
      intro a ha
      rcases htx a ha with ⟨v, hv, hreq⟩
      rw [huntouched a v (txbctrl_notMem_written rxBufferType a ha) hv, hreq]
    rintro (h0 | h1 | h2)
    · exact h0 (hclear TXB0CTRL (by decide))
    · exact h1 (hclear TXB1CTRL (by decide))
    · exact h2 (hclear TXB2CTRL (by decide))

/-- A controller that really has been reset is initialised as intended. -/
theorem initialised_of_reset
    (htx : ∀ a ∈ [TXB0CTRL, TXB1CTRL, TXB2CTRL], ∃ v, por a = some v ∧ v &&& TXREQ = 0#8) :
    Initialised por row rxBufferType (initialised por z row rxBufferType (c.reset por)) := by
  refine initialised_of_prior htx ⟨Or.inl rfl, fun a v _ hv => ?_⟩
  simp [Chip.reset, hv]

/-- The initialisation works exactly if the controller was in configuration mode or already had the
bit timing, and the registers that are not written already had their reset values. -/
theorem initialised_iff
    (htx : ∀ a ∈ [TXB0CTRL, TXB1CTRL, TXB2CTRL], ∃ v, por a = some v ∧ v &&& TXREQ = 0#8)
    (oscillator : Oscillator) (bitrate : Bitrate) :
    Initialised por (bitrateAddr oscillator bitrate) rxBufferType
        (initialised por z (bitrateAddr oscillator bitrate) rxBufferType c) ↔
      Prior por (bitrateAddr oscillator bitrate) rxBufferType c :=
  ⟨prior_of_initialised, initialised_of_prior htx⟩

end Criterion

theorem resetValues_txbctrl : ∀ a ∈ [TXB0CTRL, TXB1CTRL, TXB2CTRL],
    ∃ v, resetValues a = some v ∧ v &&& TXREQ = 0#8 := by
  intro a ha
  refine ⟨0#8, ?_, rfl⟩
  rcases List.mem_cons.1 ha with rfl | ha
  · rfl
  · rcases List.mem_cons.1 ha with rfl | ha
    · rfl
    · rw [List.mem_singleton.1 ha]
      rfl

/-- A controller that a warm restart finds in normal mode, about to send a frame. -/
def busy : Chip where
  regs := fun a => if a = TXB0CTRL then TXREQ else 0#8
  mode := .normal
  phase := .ignore

theorem initialised_iff_busy :
    Initialised resetValues (bitrateAddr .MHZ8 .KBPS125) .Rollover
        (initialised resetValues 0#8 (bitrateAddr .MHZ8 .KBPS125) .Rollover busy) ↔
      Prior resetValues (bitrateAddr .MHZ8 .KBPS125) .Rollover busy :=
  initialised_iff resetValues_txbctrl .MHZ8 .KBPS125

/-- It keeps its bit timing, and its request. -/
theorem not_initialised :
    ¬ ∀ c : Chip, Initialised resetValues (bitrateAddr .MHZ8 .KBPS125) .Rollover
      (initialised resetValues 0#8 (bitrateAddr .MHZ8 .KBPS125) .Rollover c) := by
  intro hclaim
  have hcnf1 := (hclaim busy).cnf1
  rw [regs_of_timing _ _ _ _ (by decide), if_neg (by decide)] at hcnf1
  exact absurd hcnf1 (by decide)

end Mcp2515Task
end PicoCppSdk
