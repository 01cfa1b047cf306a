import PicoCppSdk.Foundation.Transition
import PicoCppSdk.Mcp2515Task.ControlPoint

/-!
# System — the controller, `canService`, one reader and one sender

The state is the register file of the controller, the kernel objects and shared variables of
`Mcp2515Task`, and a control point for each party.  A step is one action of one party, the start of
a call, a run of `irqHandler`, or an event in the controller: a frame arrives, a transmission
completes, or other flags of `CANINTF` rise.  Every change of the INT line from high to low latches
an edge, which a run of `irqHandler` consumes.

`trace` is a history of the frames and calls, newest first.  No step reads it.
-/

namespace PicoCppSdk
namespace Mcp2515Task

open Atomic Mcp2515 Transition

/-! ## State -/

inductive Event where
  | loaded (n : RxBuf) (img : RxImage)
  | dropped (img : RxImage)
  | returned (n : RxBuf) (x : Received) (timestamp : Nat)
  | submitted (c : SendCall)
  | transmitted (f : CanFrame)

structure Sys where
  regs : Regs
  created : Bool
  edge : Bool
  intSem : Bool
  txSem : Bool
  rxSem : Nat
  pendingRxBuf : Byte
  pendingTxBuf : Byte
  lastIntTime : Nat
  lastRxTime : Nat
  can : RunPc
  reader : Option ReadPc
  sender : Option SendPc
  trace : List Event

/-- The interrupts that `initialInTask` enables. -/
def enabled : Byte :=
  TX0IE ||| RX0IE ||| RX1IE ||| MERRE ||| WAKIE ||| ERRIE

namespace Sys

/-- The INT line is low exactly while an enabled flag is set. -/
def intHigh (s : Sys) : Bool :=
  s.regs CANINTF &&& enabled == 0#8

/-! ## Actions -/

def load (s : Sys) : (v : Shared) → v.Val
  | .pendingRxBuf => s.pendingRxBuf
  | .pendingTxBuf => s.pendingTxBuf
  | .lastIntTime => s.lastIntTime
  | .lastRxTime => s.lastRxTime

def store (s : Sys) : (v : Shared) → v.Val → Sys
  | .pendingRxBuf, x => { s with pendingRxBuf := x }
  | .pendingTxBuf, x => { s with pendingTxBuf := x }
  | .lastIntTime, x => { s with lastIntTime := x }
  | .lastRxTime, x => { s with lastRxTime := x }

/-- `xSemaphoreTake` with `portMAX_DELAY`; `none` while the semaphore is empty. -/
def take (s : Sys) : Sem → Option Sys
  | .intSemaphore => if s.intSem then some { s with intSem := false } else none
  | .txSemaphore => if s.txSem then some { s with txSem := false } else none
  | .rxSemaphore => if 0 < s.rxSem then some { s with rxSem := s.rxSem - 1 } else none

/-- `xSemaphoreGive`; a give to a full semaphore fails, and its result is ignored. -/
def give (s : Sys) : Sem → Sys
  | .intSemaphore => { s with intSem := true }
  | .txSemaphore => { s with txSem := true }
  | .rxSemaphore => { s with rxSem := min 2 (s.rxSem + 1) }

def perform : (a : Act) → Sys → Option (a.Ans × Sys)
  | .bus a, s => some ((a.onRegs s.regs).1, { s with regs := (a.onRegs s.regs).2 })
  | .semaphoresExist, s => some (s.created, s)
  | .gpioGet, s => some (s.intHigh, s)
  | .take m, s => (s.take m).map fun t => ((), t)
  | .give m, s => some ((), s.give m)
  | .load v, s => some (s.load v, s)
  | .store v x, s => some ((), s.store v x)
  | .delay _, s => some ((), s)

/-! ## The tasks -/

def canStep (s : Sys) : Option Sys :=
  (runAutomaton.step perform s.can s).map fun qs => { qs.2 with can := RunPc.goto qs.1 }

def readerStep (s : Sys) : Option Sys :=
  match s.reader with
  | none => none
  | some p =>
      (readAutomaton.step perform p s).map fun qs =>
        match qs.1 with
        | .inl q => { qs.2 with reader := some q }
        | .inr (x, t) =>
            { qs.2 with reader := none, trace := .returned p.buffer x t :: qs.2.trace }

def senderStep (s : Sys) : Option Sys :=
  match s.sender with
  | none => none
  | some p =>
      (sendAutomaton.step perform p s).map fun qs =>
        match qs.1 with
        | .inl q => { qs.2 with sender := some q }
        | .inr () => { qs.2 with sender := none }

def receive (s : Sys) (buf : Nat → Byte) : Option Sys :=
  match s.reader with
  | none => some { s with reader := some (.take buf) }
  | some _ => none

def submit (s : Sys) (c : SendCall) : Option Sys :=
  match s.sender with
  | none => some { s with sender := some (.test c), trace := .submitted c :: s.trace }
  | some _ => none

/-! ## The interrupt handler and the controller -/

/-- A latched edge runs the handler, at the time `now`. -/
def irqHandler (s : Sys) (now : Nat) : Option Sys :=
  if s.edge then some { s with edge := false, lastIntTime := now, intSem := true } else none

/-- The buffer that an accepted frame goes to. -/
def rxTarget (s : Sys) : Option RxBuf :=
  if s.regs CANINTF &&& RX0IF = 0#8 then
    some .b0
  else if s.regs RXB0CTRL &&& BUKT_ROLLOVER ≠ 0#8 ∧ s.regs CANINTF &&& RX1IF = 0#8 then
    some .b1
  else
    none

/-- The overflow flag of `EFLG`: of the second buffer with rollover, else of the first. -/
def overflowFlag (s : Sys) : Byte :=
  if s.regs RXB0CTRL &&& BUKT_ROLLOVER ≠ 0#8 then 0x80#8 else 0x40#8

def arrive (s : Sys) (img : RxImage) : Sys :=
  match s.rxTarget with
  | some n =>
      { s with
        regs := (s.regs.load n img).modify CANINTF (rxFlag n) (rxFlag n)
        trace := .loaded n img :: s.trace }
  | none =>
      -- The frame is lost.
      { s with
        regs := (s.regs.modify EFLG s.overflowFlag s.overflowFlag).modify CANINTF ERRIF ERRIF
        trace := .dropped img :: s.trace }

/-- The controller has sent the frame in TXB0. -/
def complete (s : Sys) : Option Sys :=
  if s.regs TXB0CTRL &&& TXREQ ≠ 0#8 then
    some { s with
      regs := (s.regs.modify TXB0CTRL TXREQ 0#8).modify CANINTF TX0IF TX0IF
      trace := .transmitted (txFrame s.regs) :: s.trace }
  else
    none

/-- The flags of `CANINTF` rise; the status register `EFLG` shows `eflg`. -/
def raise (s : Sys) (flags eflg : Byte) : Sys :=
  { s with regs := (s.regs.write EFLG eflg).modify CANINTF flags flags }

end Sys

/-! ## Steps -/

inductive Label where
  | canService
  | reader
  | sender
  | receive (buf : Nat → Byte)
  | submit (c : SendCall)
  | irqHandler (now : Nat)
  | arrive (img : RxImage)
  | complete
  | raise (flags eflg : Byte)

namespace Sys

/-- A step, without the edge that it may latch. -/
def move (s : Sys) : Label → Option Sys
  | .canService => s.canStep
  | .reader => s.readerStep
  | .sender => s.senderStep
  | .receive buf => s.receive buf
  | .submit c => s.submit c
  | .irqHandler now => s.irqHandler now
  | .arrive img => some (s.arrive img)
  | .complete => s.complete
  | .raise flags eflg => some (s.raise flags eflg)

/-- The edge between the states before and after a move. -/
def latch (s t : Sys) : Sys :=
  { t with edge := t.edge || (s.intHigh && !t.intHigh) }

def step (l : Label) (s : Sys) : Option Sys :=
  (s.move l).map (latch s)

/-- After `initialInTask`: the semaphores exist and are empty, no flag of `CANINTF` and no transmit
request is set, and no call has begun. -/
def boot (r : Regs) : Sys where
  regs := (r.write CANINTF 0#8).write TXB0CTRL 0#8
  created := true
  edge := false
  intSem := false
  txSem := false
  rxSem := 0
  pendingRxBuf := 0#8
  pendingTxBuf := 0#8
  lastIntTime := 0
  lastRxTime := 0
  can := .await
  reader := none
  sender := none
  trace := []

end Sys
end Mcp2515Task
end PicoCppSdk
