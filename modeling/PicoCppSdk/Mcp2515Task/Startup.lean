import PicoCppSdk.Mcp2515Task.Init
import PicoCppSdk.Mcp2515Task.Rest
import PicoCppSdk.Mcp2515Task.Source

/-!
# Startup — `initialInTask` beside `canService`

The constructor has already started `canService` when the application calls `initialInTask`, so the
two run side by side: `canService` waits for the last of the three semaphores, and then polls the
pin while the controller is still being set up.  `Sys.boot` says that nothing has come of it.  When
is that so, and is what runs from there on what `Sys` says?
-/

namespace PicoCppSdk
namespace Mcp2515Task

open Atomic Mcp2515 Transition

/-! ## State -/

/-- The controller with its mode, the semaphores that exist and the interrupt of the pin. -/
structure Board where
  sys : Sys
  mode : Mode
  exist : Sem → Bool
  registered : Bool

namespace Board

def chip (b : Board) : Chip where
  regs := b.sys.regs
  mode := b.mode
  phase := .ignore

def setChip (b : Board) (c : Chip) : Board :=
  { b with sys := { b.sys with regs := c.regs }, mode := c.mode }

/-- The INT line is high while no flag is set that `CANINTE` enables. -/
def line (b : Board) : Bool :=
  b.sys.regs CANINTF &&& b.sys.regs CANINTE == 0#8

/-- A falling edge is latched once the interrupt of the pin is enabled. -/
def latch (b b' : Board) : Board :=
  { b' with sys := { b'.sys with
      edge := b'.sys.edge || (b'.registered && (b.line && !b'.line)) } }

/-- A semaphore is created with `n` tokens. -/
def create (b : Board) (m : Sem) (n : Nat) : Board :=
  let exist := Function.update b.exist m true
  let created := exist .intSemaphore && exist .txSemaphore && exist .rxSemaphore
  match m with
  | .intSemaphore =>
      { b with sys := { b.sys with created := created, intSem := 0 < n }, exist := exist }
  | .txSemaphore =>
      { b with sys := { b.sys with created := created, txSem := 0 < n }, exist := exist }
  | .rxSemaphore =>
      { b with sys := { b.sys with created := created, rxSem := n }, exist := exist }

end Board

/-! ## Steps -/

section Actions

variable (por : Reset) (z : Byte)

def InitAct.onBoard : (a : InitAct) → Board → a.Ans × Board
  | .bus a, b =>
      (((Chip.slave por z).act a b.chip).1, b.setChip ((Chip.slave por z).act a b.chip).2)
  | .createBinary m, b => ((), b.create m 0)
  | .createCounting m _ n, b => ((), b.create m n)
  | .delay _, b => ((), b)
  | .gpioInit, b => ((), b)
  | .gpioSetPulls _ _, b => ((), b)
  -- The edges of the pin up to now are acknowledged.
  | .registerIrqCallback _, b =>
      ((), { b with sys := { b.sys with edge := false }, registered := true })

namespace Board

def perform : (a : Act) → Board → Option (a.Ans × Board)
  | .bus a, b =>
      some (((Chip.slave por z).act a b.chip).1, b.setChip ((Chip.slave por z).act a b.chip).2)
  | .gpioGet, b => some (b.line, b)
  | a, b => (Sys.perform a b.sys).map fun q => (q.1, { b with sys := q.2 })

def canStep (b : Board) : Option Board :=
  (runAutomaton.step (perform por z) b.sys.can b).map fun q =>
    { q.2 with sys := { q.2.sys with can := RunPc.goto q.1 } }

/-- The calls of the user's tasks touch no register that a mode locks. -/
def move (b : Board) : Label → Option Board
  | .canService => b.canStep por z
  | l => (b.sys.move l).map fun t => { b with sys := t }

end Board

end Actions

/-- The board and what is left of `initialInTask`. -/
structure Startup where
  board : Board
  init : InitCode Unit

namespace Startup

inductive Label where
  | initialInTask
  | other (l : Mcp2515Task.Label)

def returned (s : Startup) : Bool :=
  match s.init with
  | .ret _ => true
  | .act _ _ => false

/-- In configuration mode the controller is off the bus, and the application makes its calls when
`initialInTask` has returned. -/
def admits (s : Startup) : Mcp2515Task.Label → Bool
  | .canService => true
  | .irqHandler _ => true
  | .arrive _ => s.board.mode != .configuration
  | .complete => s.board.mode != .configuration
  | .raise _ _ => s.board.mode != .configuration
  | .reader => s.returned
  | .sender => s.returned
  | .receive _ => s.returned
  | .submit _ => s.returned

section Step

variable (por : Reset) (z : Byte)

def step : Label → Startup → Option Startup
  | .initialInTask, s =>
      match s.init with
      | .ret _ => none
      | .act a k =>
          some ⟨s.board.latch (a.onBoard por z s.board).2, k (a.onBoard por z s.board).1⟩
  | .other l, s =>
      if s.admits l then
        (s.board.move por z l).map fun b => ⟨s.board.latch b, s.init⟩
      else
        none

/-- The object has been constructed; its fields are as they are initialised there. -/
def start (r : Regs) (m : Mode) (row : BitTiming) (rxBufferType : RxBufferType) : Startup where
  board :=
    { sys := { Sys.boot r with regs := r, created := false }
      mode := m
      exist := fun _ => false
      registered := false }
  init := initialInTask row rxBufferType

end Step
end Startup

/-! ## `initialInTask` alone -/

namespace Board

/-- The board as `initialInTask` is to leave it, with the controller `c`. -/
def ready (c : Chip) : Board where
  sys := { Sys.boot c.regs with regs := c.regs }
  mode := c.mode
  exist := fun _ => true
  registered := true

/-- The board without the place where `canService` is. -/
def erase (b : Board) : Board :=
  { b with sys := { b.sys with can := .await } }

end Board

section Alone

variable (por : Reset) (z : Byte)

theorem InitAct.onBoard_erase (a : InitAct) (b : Board) :
    a.onBoard por z b.erase = ((a.onBoard por z b).1, (a.onBoard por z b).2.erase) := by
  cases a with
  | createBinary m => cases m <;> rfl
  | createCounting m max n => cases m <;> rfl
  | _ => rfl

theorem InitAct.onBoard_chip (a : InitAct) (b : Board) :
    a.onChip por z b.chip = ((a.onBoard por z b).1, (a.onBoard por z b).2.chip) := by
  cases a with
  | bus a => cases a <;> rfl
  | createBinary m => cases m <;> rfl
  | createCounting m max n => cases m <;> rfl
  | _ => rfl

theorem run_initialInTask (r : Regs) (m : Mode) (row : BitTiming) (rxBufferType : RxBufferType) :
    ((initialInTask row rxBufferType).run (InitAct.onBoard por z)
      (Startup.start r m row rxBufferType).board).2 =
      .ready (initialised por z row rxBufferType ⟨r, m, .ignore⟩) := by
  have hchip := Prog.run_map (InitAct.onBoard_chip por z) (initialInTask row rxBufferType)
    (Startup.start r m row rxBufferType).board
  have hboard : ∀ c, ((initialInTask row rxBufferType).run (InitAct.onBoard por z)
      (Startup.start r m row rxBufferType).board).2.setChip c = .ready c := by
    intro c
    have hexist : Function.update (Function.update (Function.update (fun _ => false)
        Sem.intSemaphore true) Sem.txSemaphore true) Sem.rxSemaphore true = fun _ => true := by
      funext m
      cases m <;> rfl
    rw [Board.ready, ← hexist]
    cases rxBufferType <;> rfl
  rw [initialised]
  exact (hboard _).trans (congrArg Board.ready (congrArg Prod.snd hchip).symm)

end Alone

/-! ## Nothing to be seen on the pin -/

/-- The action writes none of the registers, and creates no semaphore with a token. -/
def InitAct.Avoids (addrs : List Byte) : InitAct → Prop
  | .bus (.writeByte addr _) => addr ∉ addrs
  | .bus (.bitModify _ _ _) => False
  | .createCounting _ _ n => n = 0
  | _ => True

def InitAct.Registers : InitAct → Prop
  | .registerIrqCallback _ => True
  | _ => False

/-- Before `initialInTask` clears `CANINTF`. -/
structure Board.Untouched (r : Regs) (m : Mode) (b : Board) : Prop where
  mode : b.mode = m
  edge : b.sys.edge = false
  intSem : b.sys.intSem = false
  registered : b.registered = false
  intf : b.sys.regs CANINTF = r CANINTF
  inte : b.sys.regs CANINTE = r CANINTE

/-- After that. -/
structure Board.Cleared (m : Mode) (b : Board) : Prop where
  mode : b.mode = m
  edge : b.sys.edge = false
  intSem : b.sys.intSem = false
  intf : b.sys.regs CANINTF = 0#8

/-- No flag of `CANINTF` holds the pin low that `run` would act on. -/
structure Board.Silent (m : Mode) (b : Board) : Prop where
  mode : b.mode = m
  edge : b.sys.edge = false
  intSem : b.sys.intSem = false
  registered : b.registered = true → b.sys.regs CANINTF = 0#8
  quiet : b.line = true ∨ b.sys.regs CANINTF &&& enabled = 0#8

namespace Board

variable {r : Regs} {m : Mode} {b : Board}

theorem line_of_intf (h : b.sys.regs CANINTF = 0#8) : b.line = true := by
  rw [line, h, BitVec.zero_and]
  rfl

theorem Untouched.silent (hquiet : r CANINTF &&& r CANINTE = 0#8 ∨ r CANINTF &&& enabled = 0#8)
    (h : b.Untouched r m) : b.Silent m where
  mode := h.mode
  edge := h.edge
  intSem := h.intSem
  registered hreg := absurd (h.registered.symm.trans hreg) (by decide)
  quiet := by
    rw [line, h.intf, h.inte, beq_iff_eq]
    exact hquiet

theorem Cleared.silent (h : b.Cleared m) : b.Silent m where
  mode := h.mode
  edge := h.edge
  intSem := h.intSem
  registered _ := h.intf
  quiet := Or.inl (line_of_intf h.intf)

end Board

section Silence

variable {por : Reset} {z : Byte} {r : Regs} {m : Mode} {a : InitAct} {b : Board}

/-- A transaction that avoids a register leaves it alone, and with `CANCTRL` the mode. -/
theorem onBoard_avoids (por : Reset) (z : Byte) {addrs : List Byte} (h : a.Avoids addrs)
    (b : Board) :
    (∀ addr ∈ addrs, (a.onBoard por z b).2.sys.regs addr = b.sys.regs addr) ∧
      (CANCTRL ∈ addrs → (a.onBoard por z b).2.mode = b.mode) := by
  cases a with
  | bus a =>
      cases a with
      | writeByte addr data =>
          have hne : ∀ x ∈ addrs, x ≠ addr := by
            rintro x hx rfl
            exact h hx
          simp only [InitAct.onBoard, Chip.act_writeByte, Board.setChip, Chip.write]
          split
          · exact ⟨fun _ _ => rfl, fun _ => rfl⟩
          · exact ⟨fun x hx => Regs.write_of_ne (hne x hx) _ _,
              fun hctrl => if_neg (hne CANCTRL hctrl).symm⟩
      | bitModify addr mask data => exact h.elim
      | _ => exact ⟨fun _ _ => rfl, fun _ => rfl⟩
  | createBinary m => cases m <;> exact ⟨fun _ _ => rfl, fun _ => rfl⟩
  | createCounting m max n => cases m <;> exact ⟨fun _ _ => rfl, fun _ => rfl⟩
  | _ => exact ⟨fun _ _ => rfl, fun _ => rfl⟩

/-- Nothing that `initialInTask` does wakes `canService`. -/
theorem onBoard_quiet (por : Reset) (z : Byte) {addrs : List Byte} (h : a.Avoids addrs)
    (hedge : b.sys.edge = false) (hsem : b.sys.intSem = false) :
    (a.onBoard por z b).2.sys.edge = false ∧ (a.onBoard por z b).2.sys.intSem = false := by
  cases a with
  | createBinary m =>
      cases m with
      | intSemaphore => exact ⟨hedge, rfl⟩
      | _ => exact ⟨hedge, hsem⟩
  | createCounting m max n =>
      obtain rfl : n = 0 := h
      cases m with
      | intSemaphore => exact ⟨hedge, rfl⟩
      | _ => exact ⟨hedge, hsem⟩
  | registerIrqCallback events => exact ⟨rfl, hsem⟩
  | _ => exact ⟨hedge, hsem⟩

theorem onBoard_registered (por : Reset) (z : Byte) (h : ¬ a.Registers) (b : Board) :
    (a.onBoard por z b).2.registered = b.registered := by
  cases a with
  | createBinary m => cases m <;> rfl
  | createCounting m max n => cases m <;> rfl
  | registerIrqCallback events => exact absurd trivial h
  | _ => rfl

theorem Board.Untouched.onBoard (h : b.Untouched r m)
    (ha : a.Avoids [CANINTF, CANINTE, CANCTRL] ∧ ¬ a.Registers) :
    (a.onBoard por z b).2.Untouched r m := by
  rcases onBoard_avoids por z ha.1 b with ⟨hregs, hmode⟩
  rcases onBoard_quiet por z ha.1 h.edge h.intSem with ⟨hedge, hsem⟩
  exact ⟨(hmode (by decide)).trans h.mode, hedge, hsem,
    (onBoard_registered por z ha.2 b).trans h.registered, (hregs _ (by decide)).trans h.intf,
    (hregs _ (by decide)).trans h.inte⟩

theorem Board.Cleared.onBoard (h : b.Cleared m) (ha : a.Avoids [CANINTF, CANCTRL]) :
    (a.onBoard por z b).2.Cleared m := by
  rcases onBoard_avoids por z ha b with ⟨hregs, hmode⟩
  rcases onBoard_quiet por z ha h.edge h.intSem with ⟨hedge, hsem⟩
  exact ⟨(hmode (by decide)).trans h.mode, hedge, hsem, (hregs _ (by decide)).trans h.intf⟩

/-- The write that clears `CANINTF`. -/
theorem Board.Untouched.clear (h : b.Untouched r m) :
    (InitAct.onBoard por z (.bus (.writeByte CANINTF 0#8)) b).2.Cleared m := by
  have hopen : ¬ (ConfigOnly CANINTF ∧ b.chip.mode ≠ .configuration) :=
    fun hlocked => absurd hlocked.1 (by decide)
  simp only [InitAct.onBoard, Chip.act_writeByte, Board.setChip, Chip.write, if_neg hopen]
  exact ⟨h.mode, h.edge, h.intSem, rfl⟩

/-! ### The whole of `initialInTask` -/

/-- `initialInTask` up to `clearInterrupts`. -/
def prepare (row : BitTiming) : InitCode Unit := do
  act (.createBinary .intSemaphore)
  act (.createBinary .txSemaphore)
  act (.createCounting .rxSemaphore 2 0)
  bus resetMcp2515
  act (.delay 100)
  bus (setMcp2515Bitrate row)

/-- From there to the last write. -/
def arm (rxBufferType : RxBufferType) : InitCode Unit := do
  match rxBufferType with
  | .Rollover => bus (writeByte RXB0CTRL (RXM_RCV_ALL ||| BUKT_ROLLOVER))
  | .Independent => do
      bus (writeByte RXB0CTRL RXM_RCV_ALL)
      bus (writeByte RXB1CTRL RXM_RCV_ALL)
  act .gpioInit
  act (.gpioSetPulls true false)
  act (.registerIrqCallback GPIO_IRQ_EDGE_FALL)
  bus (enableInterrupts (TX0IE ||| RX0IE ||| RX1IE ||| MERRE ||| WAKIE ||| ERRIE))

theorem initialInTask_eq (row : BitTiming) (rxBufferType : RxBufferType) :
    initialInTask row rxBufferType = (prepare row >>= fun _ => bus (clearInterrupts 0#8) >>=
      fun _ => arm rxBufferType >>= fun _ =>
        bus (writeByte CANCTRL (REQOP_NORMAL ||| CLKOUT_ENABLED))) := by
  cases rxBufferType <;> rfl

theorem prepare_every (row : BitTiming) :
    (prepare row).Every fun a => a.Avoids [CANINTF, CANINTE, CANCTRL] ∧ ¬ a.Registers := by
  simp [prepare, act, bus, resetMcp2515, setMcp2515Bitrate, writeByte, Prog.Every, InitAct.Avoids,
    InitAct.Registers]

theorem arm_every (rxBufferType : RxBufferType) :
    (arm rxBufferType).Every (InitAct.Avoids [CANINTF, CANCTRL]) := by
  cases rxBufferType <;>
    simp [arm, act, bus, enableInterrupts, writeByte, Prog.Every, InitAct.Avoids]

theorem throughout_initialInTask (row : BitTiming) (rxBufferType : RxBufferType)
    (hquiet : r CANINTF &&& r CANINTE = 0#8 ∨ r CANINTF &&& enabled = 0#8) :
    (initialInTask row rxBufferType).Throughout (InitAct.onBoard por z) (Board.Silent m)
      (Startup.start r m row rxBufferType).board := by
  have hstart : (Startup.start r m row rxBufferType).board.Untouched r m :=
    ⟨rfl, rfl, rfl, rfl, rfl, rfl⟩
  have hprepared := Prog.run_invariant (h := InitAct.onBoard por z) (fun a b ha hb => hb.onBoard ha)
    (prepare row) _ ((prepare_every row).performs _) hstart
  have hclear : (InitAct.onBoard por z (.bus (.writeByte CANINTF 0#8)) _).2.Cleared m :=
    hprepared.clear
  have harmed := Prog.run_invariant (h := InitAct.onBoard por z)
    (fun a b ha (hb : b.Cleared m) => hb.onBoard ha) (arm rxBufferType) _
    ((arm_every rxBufferType).performs _) hclear
  rw [initialInTask_eq]
  -- Before the flags are cleared they are the old ones, and none is set from then on.
  refine Prog.throughout_bind ?_ (Prog.throughout_bind ⟨hprepared.silent hquiet, trivial⟩
    (Prog.throughout_bind ?_ ⟨harmed.silent, trivial⟩))
  · exact ((prepare_every row).throughout (fun a b ha hb => hb.onBoard ha) hstart).mono
      fun b hb => hb.silent hquiet
  · exact ((arm_every rxBufferType).throughout (fun a b ha (hb : b.Cleared m) => hb.onBoard ha)
      hclear).mono fun b hb => hb.silent

/-- What is written to `CANINTF` clears it. -/
def InitAct.Clears : InitAct → Prop
  | .bus (.writeByte addr data) => addr = CANINTF → data = 0#8
  | .bus (.bitModify _ _ _) => False
  | _ => True

theorem clears_initialInTask (row : BitTiming) (rxBufferType : RxBufferType) :
    (initialInTask row rxBufferType).Every InitAct.Clears := by
  cases rxBufferType <;>
    simp [initialInTask, act, bus, resetMcp2515, setMcp2515Bitrate, clearInterrupts,
      enableInterrupts, writeByte, Prog.Every, InitAct.Clears]

theorem onBoard_clears (por : Reset) (z : Byte) (h : a.Clears) (b : Board) {x : Byte}
    (hx : b.sys.regs CANINTF &&& x = 0#8) :
    (a.onBoard por z b).2.sys.regs CANINTF &&& x = 0#8 := by
  cases a with
  | bus a =>
      cases a with
      | writeByte addr data =>
          simp only [InitAct.onBoard, Chip.act_writeByte, Board.setChip, Chip.write]
          split
          · exact hx
          · by_cases haddr : CANINTF = addr
            · obtain rfl := haddr
              rw [h rfl]
              simp only [Regs.write_self, BitVec.zero_and]
            · simp only [Regs.write_of_ne haddr]
              exact hx
      | bitModify addr mask data => exact h.elim
      | _ => exact hx
  | createBinary m => cases m <;> exact hx
  | createCounting m max n => cases m <;> exact hx
  | _ => exact hx

end Silence

/-! ## `canService` meanwhile -/

/-- `canService` waits: for the semaphores, or for the pin. -/
def RunPc.idle : RunPc → Bool
  | .await => true
  | .awaitDelay => true
  | .poll => true
  | .block => true
  | .readIntf => true
  | _ => false

namespace Board

variable {por : Reset} {z : Byte} {b b' : Board}

theorem canStep_at {p : RunPc} (hpc : b.sys.can = p) :
    b.canStep por z = (perform por z p.act b).map fun rs =>
      { rs.2 with sys := { rs.2.sys with can := RunPc.goto (p.next rs.1) } } := by
  subst hpc
  simp only [canStep, Automaton.step, runAutomaton, Option.map_map]
  rfl

/-- Nothing wakes `canService`, and it has seen no flag to act on. -/
structure Calm (b : Board) : Prop where
  idle : b.sys.can.idle = true
  seen : b.sys.can = .readIntf → b.sys.regs CANINTF &&& enabled = 0#8
  edge : b.sys.edge = false
  intSem : b.sys.intSem = false
  registered : b.registered = true → b.line = true
  quiet : b.line = true ∨ b.sys.regs CANINTF &&& enabled = 0#8

/-- It stays so, and only `canService` itself moves. -/
theorem Calm.canStep (h : b.Calm) (hstep : b.canStep por z = some b') :
    b'.erase = b.erase ∧ b'.Calm := by
  have hmoved : ∀ p, { b with sys := { b.sys with can := p } } = b' → p.idle = true →
      (p = .readIntf → b.sys.regs CANINTF &&& enabled = 0#8) → b'.erase = b.erase ∧ b'.Calm := by
    rintro p rfl hidle hseen
    exact ⟨rfl, hidle, hseen, h.edge, h.intSem, h.registered, h.quiet⟩
  cases hpc : b.sys.can with
  | await =>
      have hat := Option.some.inj ((canStep_at hpc).symm.trans hstep)
      cases hcreated : b.sys.created with
      | true =>
          have hnext : RunPc.next .await b.sys.created = .inr .serve := by rw [hcreated]; rfl
          exact hmoved .poll (hat ▸ by simp only [hnext]; rfl) rfl nofun
      | false =>
          have hnext : RunPc.next .await b.sys.created = .inl .awaitDelay := by rw [hcreated]; rfl
          exact hmoved .awaitDelay (hat ▸ by simp only [hnext]; rfl) rfl nofun
  | awaitDelay =>
      exact hmoved .await (Option.some.inj ((canStep_at hpc).symm.trans hstep)) rfl nofun
  | poll =>
      have hat := Option.some.inj ((canStep_at hpc).symm.trans hstep)
      cases hline : b.line with
      | true =>
          have hnext : RunPc.next .poll b.line = .inl .block := by rw [hline]; rfl
          exact hmoved .block (hat ▸ by simp only [hnext]; rfl) rfl nofun
      | false =>
          have hnext : RunPc.next .poll b.line = .inl .readIntf := by rw [hline]; rfl
          refine hmoved .readIntf (hat ▸ by simp only [hnext]; rfl) rfl fun _ => ?_
          exact h.quiet.resolve_left (by rw [hline]; decide)
  | block =>
      rw [canStep_at hpc] at hstep
      simp [RunPc.act, perform, Sys.perform, Sys.take, h.intSem] at hstep
  | readIntf =>
      have hat := Option.some.inj ((canStep_at hpc).symm.trans hstep)
      refine hmoved .poll (hat ▸ ?_) rfl nofun
      have hpoll := RunPc.goto_fromIntf_poll (h.seen hpc)
      rw [← hpoll]
      rfl
  | _ =>
      have hidle := h.idle
      rw [hpc] at hidle
      cases hidle

theorem latch_of_line (h : b'.registered = true → b'.line = true) : b.latch b' = b' := by
  have hnone : (b'.registered && (b.line && !b'.line)) = false := by
    cases hreg : b'.registered with
    | true => rw [h hreg, Bool.not_true, Bool.and_false, Bool.and_false]
    | false => rfl
  simp only [latch, hnone, Bool.or_false]

theorem latch_of_erase (h : b'.erase = b.erase) : b.latch b' = b' := by
  have hline : b'.line = b.line := by
    change b'.erase.line = b.erase.line
    rw [h]
  simp [latch, hline]

/-- While `initialInTask` runs silently, and when it has. -/
theorem calm_of_throughout {p : InitCode Unit} {m : Mode} {c : Chip} (hc : c.regs CANINTF = 0#8)
    (hidle : b.sys.can.idle = true)
    (hseen : b.sys.can = .readIntf → b.sys.regs CANINTF &&& enabled = 0#8)
    (hsilent : p.Throughout (InitAct.onBoard por z) (Silent m) b.erase)
    (hends : (p.run (InitAct.onBoard por z) b.erase).2 = ready c) : b.Calm := by
  cases p with
  | ret x =>
      have hboard : b.erase = ready c := hends
      have hintf : b.erase.sys.regs CANINTF = 0#8 := by rw [hboard]; exact hc
      have hline : b.erase.line = true := line_of_intf hintf
      have hsem : b.erase.sys.edge = false ∧ b.erase.sys.intSem = false := by
        rw [hboard]
        exact ⟨rfl, rfl⟩
      exact ⟨hidle, hseen, hsem.1, hsem.2, fun _ => hline, Or.inl hline⟩
  | act a k =>
      have hnow := hsilent.1
      exact ⟨hidle, hseen, hnow.edge, hnow.intSem, fun hreg => line_of_intf (hnow.registered hreg),
        hnow.quiet⟩

end Board

theorem onBoard_can (por : Reset) (z : Byte) (a : InitAct) (b : Board) :
    (a.onBoard por z b).2.sys.can = b.sys.can := by
  cases a with
  | createBinary m => cases m <;> rfl
  | createCounting m max n => cases m <;> rfl
  | _ => rfl

namespace Startup

variable {por : Reset} {z : Byte} {m : Mode} {c : Chip} {s t : Startup}

/-- `initialInTask` is under way, or has just returned, and will have left the controller as `c`:
`canService` has not been in its way. -/
structure Starting (por : Reset) (z : Byte) (m : Mode) (c : Chip) (s : Startup) : Prop where
  calm : s.board.Calm
  clears : s.init.Every InitAct.Clears
  silent : s.init.Throughout (InitAct.onBoard por z) (Board.Silent m) s.board.erase
  ends : (s.init.run (InitAct.onBoard por z) s.board.erase).2 = .ready c

/-- The next step of `initialInTask`. -/
theorem Starting.next (hc : c.regs CANINTF = 0#8) (h : s.Starting por z m c)
    (hstep : Startup.step por z .initialInTask s = some t) : t.Starting por z m c := by
  rcases s with ⟨b, init⟩
  cases init with
  | ret x => cases hstep
  | act a k =>
      cases hstep
      have hsilent := h.silent.2
      have hends := h.ends
      rw [Prog.run_act] at hends
      rw [InitAct.onBoard_erase] at hsilent hends
      have hcan := onBoard_can por z a b
      have hcalm : (a.onBoard por z b).2.Calm := by
        refine Board.calm_of_throughout hc ?_ ?_ hsilent hends
        · rw [hcan]
          exact h.calm.idle
        · intro hread
          exact onBoard_clears por z h.clears.1 b (h.calm.seen (hcan ▸ hread))
      have hlatch := Board.latch_of_line (b := b) hcalm.registered
      exact ⟨hlatch.symm ▸ hcalm, h.clears.2 _, hlatch.symm ▸ hsilent, hlatch.symm ▸ hends⟩

/-- A step of `canService` meanwhile. -/
theorem Starting.canService (h : s.Starting por z m c)
    (hstep : Startup.step por z (.other .canService) s = some t) : t.Starting por z m c := by
  rcases Option.map_eq_some_iff.1 hstep with ⟨b, hmove, rfl⟩
  rcases h.calm.canStep hmove with ⟨herase, hcalm⟩
  rw [Board.latch_of_erase herase]
  exact ⟨hcalm, h.clears, herase.symm ▸ h.silent, herase.symm ▸ h.ends⟩

theorem Starting.not_irqHandler (h : s.Starting por z m c) (now : Nat) :
    Startup.step por z (.other (.irqHandler now)) s = none := by
  simp [Startup.step, admits, Board.move, Sys.move, Sys.irqHandler, h.calm.edge]

theorem starting_start (r : Regs) (row : BitTiming) (rxBufferType : RxBufferType)
    (hquiet : r CANINTF &&& r CANINTE = 0#8 ∨ r CANINTF &&& enabled = 0#8) :
    (start r m row rxBufferType).Starting por z m
      (initialised por z row rxBufferType ⟨r, m, .ignore⟩) where
  calm := by
    refine ⟨rfl, nofun, rfl, rfl, nofun, ?_⟩
    rw [Board.line, beq_iff_eq]
    exact hquiet
  clears := clears_initialInTask row rxBufferType
  silent := throughout_initialInTask row rxBufferType hquiet
  ends := run_initialInTask por z r m row rxBufferType

/-! ## When `canService` is in its way -/

/-- Neither an event in the controller nor a call. -/
def Quiet (_ : Startup) : Label → Prop
  | .initialInTask => True
  | .other .canService => True
  | .other (.irqHandler _) => True
  | _ => False

/-- The work of `initialInTask` is done, and `canService` has done nothing but wait. -/
structure Fresh (c : Chip) (s : Startup) : Prop where
  board : s.board.erase = .ready c
  idle : s.board.sys.can.idle = true

theorem Starting.step (hc : c.regs CANINTF = 0#8) (h : s.Starting por z m c) {l : Label}
    (hl : s.Quiet l) (hstep : Startup.step por z l s = some t) : t.Starting por z m c := by
  cases l with
  | initialInTask => exact h.next hc hstep
  | other l =>
      cases l with
      | canService => exact h.canService hstep
      | irqHandler now =>
          rw [h.not_irqHandler] at hstep
          cases hstep
      | _ => exact hl.elim

theorem Starting.fresh (h : s.Starting por z m c) (hreturned : s.returned = true) :
    s.Fresh c := by
  rcases s with ⟨b, init⟩
  cases init with
  | ret x => exact ⟨h.ends, h.calm.idle⟩
  | act a k => cases hreturned

/-- `initialInTask` on its own gets to its end. -/
theorem exists_returned (por : Reset) (z : Byte) (s : Startup) :
    ∃ ls t, Run (Startup.step por z) Quiet s ls t ∧ t.returned = true ∧
      t.board.sys.can = s.board.sys.can := by
  rcases s with ⟨b, init⟩
  induction init generalizing b with
  | ret x => exact ⟨[], ⟨b, .ret x⟩, .nil _, rfl, rfl⟩
  | act a k ih =>
      rcases ih (a.onBoard por z b).1 (b.latch (a.onBoard por z b).2) with
        ⟨ls, t, hrun, hreturned, hcan⟩
      exact ⟨.initialInTask :: ls, t, .cons trivial rfl hrun, hreturned,
        hcan.trans (onBoard_can por z a b)⟩

/-- `canService` polls, and the pin is low. -/
theorem exists_noticed (por : Reset) (z : Byte) (hcan : s.board.sys.can = .await)
    (hcreated : s.board.sys.created = true) (hline : s.board.line = false) :
    ∃ ls t, Run (Startup.step por z) Quiet s ls t ∧
      t.board.sys.can = RunPc.goto (RunPc.fromIntf (s.board.sys.regs CANINTF)) := by
  rcases s with ⟨b, init⟩
  let at' (p : RunPc) : Board := { b with sys := { b.sys with can := p } }
  have hstep : ∀ {p q}, (at' p).canStep por z = some (at' q) →
      Startup.step por z (.other .canService) ⟨at' p, init⟩ = some ⟨at' q, init⟩ := by
    intro p q hmove
    have hlatch : (at' p).latch (at' q) = at' q := Board.latch_of_erase rfl
    simp only [Startup.step, admits, Board.move, hmove, if_true, Option.map_some, hlatch]
  have hstart : at' .await = b := by
    simp only [at', ← show b.sys.can = .await from hcan]
  have hpoll : (at' .await).canStep por z = some (at' .poll) := by
    have hnext : RunPc.next .await b.sys.created = .inr .serve := by
      rw [show b.sys.created = true from hcreated]
      rfl
    rw [Board.canStep_at rfl]
    exact congrArg (fun q => some (at' (RunPc.goto q))) hnext
  have hread : (at' .poll).canStep por z = some (at' .readIntf) := by
    have hnext : RunPc.next .poll (at' .poll).line = .inl .readIntf := by
      rw [show (at' .poll).line = false from hline]
      rfl
    rw [Board.canStep_at rfl]
    exact congrArg (fun q => some (at' (RunPc.goto q))) hnext
  have hgo : (at' .readIntf).canStep por z =
      some (at' (RunPc.goto (RunPc.fromIntf (b.sys.regs CANINTF)))) := by
    rw [Board.canStep_at rfl]
    rfl
  rw [← hstart]
  exact ⟨[.other .canService, .other .canService, .other .canService], ⟨_, init⟩,
    .cons trivial (hstep hpoll) (.cons trivial (hstep hread) (.single trivial (hstep hgo))), rfl⟩

end Startup

/-- An enabled flag is acted on. -/
theorem RunPc.not_idle_of_seen {f : Byte} (h : f &&& enabled ≠ 0#8) :
    (goto (fromIntf f)).idle = false := by
  rw [goto_fromIntf]
  split
  · rfl
  · rename_i herr
    by_cases htx : f &&& TX0IF ≠ 0#8
    · exact goto_fromStamp_of_tx htx (P := fun p => p.idle = false) rfl (fun _ => rfl) rfl
    · have hrx : f &&& RX0IF ≠ 0#8 ∨ f &&& RX1IF ≠ 0#8 := by
        by_contra hnone
        rw [not_or, not_not, not_not] at hnone
        apply h
        rw [Sys.enabled_eq, BitVec.and_or_distrib_left, not_not.1 herr,
          BitVec.and_or_distrib_left, hnone.1, BitVec.and_or_distrib_left, hnone.2, not_not.1 htx]
        rfl
      rw [goto_fromStamp, if_pos hrx]
      rfl

namespace Startup

/-- Beside a controller that does nothing by itself, `canService` leaves `initialInTask` alone in
every interleaving exactly if the flags that the controller was found with do not pull the pin low,
or none of them is one that `run` acts on. -/
theorem initialInTask_undisturbed_iff (por : Reset) (z : Byte) (r : Regs) (m : Mode)
    (row : BitTiming) (rxBufferType : RxBufferType) :
    (∀ ls s, Run (Startup.step por z) Quiet (start r m row rxBufferType) ls s →
        s.returned = true → s.Fresh (initialised por z row rxBufferType ⟨r, m, .ignore⟩)) ↔
      (r CANINTF &&& r CANINTE = 0#8 ∨ r CANINTF &&& enabled = 0#8) := by
  constructor
  · intro h
    by_contra hnot
    rw [not_or] at hnot
    -- The semaphores are created, and then `canService` comes first.
    have hcreate : ∃ s, Run (Startup.step por z) Quiet (start r m row rxBufferType)
        [.initialInTask, .initialInTask, .initialInTask] s ∧ s.board.sys.can = .await ∧
          s.board.sys.created = true ∧ s.board.sys.regs = r :=
      ⟨_, .cons trivial rfl (.cons trivial rfl (.single trivial rfl)), rfl, rfl, rfl⟩
    rcases hcreate with ⟨s₁, hrun₁, hcan₁, hcreated, hregs⟩
    have hline : s₁.board.line = false := by
      rw [Board.line, hregs, beq_eq_false_iff_ne]
      exact hnot.1
    rcases exists_noticed por z hcan₁ hcreated hline with ⟨ls₂, s₂, hrun₂, hcan₂⟩
    rcases exists_returned por z s₂ with ⟨ls₃, s₃, hrun₃, hreturned, hcan₃⟩
    have hidle := (h _ s₃ (hrun₁.append (hrun₂.append hrun₃)) hreturned).idle
    rw [hcan₃, hcan₂, hregs, RunPc.not_idle_of_seen hnot.2] at hidle
    cases hidle
  · intro hquiet ls s hrun hreturned
    have hc : (initialised por z row rxBufferType ⟨r, m, .ignore⟩).regs CANINTF = 0#8 := by
      rw [regs_initialised]
      cases rxBufferType <;> rfl
    exact (hrun.invariant (fun s l t h hl hstep => h.step hc hl hstep)
      (starting_start r row rxBufferType hquiet)).fresh hreturned

end Startup
end Mcp2515Task
end PicoCppSdk
