import PicoCppSdk.Mcp2515.Codec

/-!
# Program — `mcp2515Task.cpp` as programs over atomic actions

Three pieces of code run concurrently: the loop of `Mcp2515Task::run` (the task `canService`), and
the calls of `rxReadInTask` and `txBuffer0SendInTask` of the user's tasks.  An action is what one
of them does in one step: one bus transaction, one call of the kernel, one read of the pin, one
load or one store of a shared variable.  A compound assignment such as `_pendingRxBuf |= 0x01` is a
load and a store.
-/

namespace PicoCppSdk
namespace Mcp2515Task

open Atomic Mcp2515

/-! ## Actions -/

/-- The semaphores; `rxSemaphore` counts up to 2, the others are binary. -/
inductive Sem where
  | intSemaphore
  | txSemaphore
  | rxSemaphore
  deriving DecidableEq

/-- The variables that two of the parties, or one and the interrupt handler, use. -/
inductive Shared where
  | pendingRxBuf
  | pendingTxBuf
  | lastIntTime
  | lastRxTime
  deriving DecidableEq

abbrev Shared.Val : Shared → Type
  | .pendingRxBuf => Byte
  | .pendingTxBuf => Byte
  | .lastIntTime => Nat
  | .lastRxTime => Nat

inductive Act where
  | bus (a : BusAct)
  | semaphoresExist
  | gpioGet
  | take (m : Sem)
  | give (m : Sem)
  | load (v : Shared)
  | store (v : Shared) (x : v.Val)
  | delay (ms : Nat)

abbrev Act.Ans : Act → Type
  | .bus a => a.Ans
  | .semaphoresExist => Bool
  | .gpioGet => Bool
  | .load v => v.Val
  | _ => Unit

/-- Code of a task. -/
abbrev Task (α : Type) := Prog Act Act.Ans α

/-- A driver method called by a task. -/
def liftBus {α : Type} : Driver α → Task α
  | .ret x => .ret x
  | .act a k => .act (.bus a) fun r => liftBus (k r)

def semaphoresExist : Task Bool := .act .semaphoresExist .ret

def gpioGet : Task Bool := .act .gpioGet .ret

def take (m : Sem) : Task Unit := .act (.take m) .ret

def give (m : Sem) : Task Unit := .act (.give m) .ret

def load (v : Shared) : Task v.Val := .act (.load v) .ret

def store (v : Shared) (x : v.Val) : Task Unit := .act (.store v x) .ret

def delay (ms : Nat) : Task Unit := .act (.delay ms) .ret

/-! ## `Mcp2515Task::run` -/

/-- The loop whose condition `run` tests next. -/
inductive Loop where
  | await
  | serve

/-- The branch `intFlag & (MERRF | WAKIF | ERRIF)`. -/
def serviceError : Task Unit := do
  let eflg ← liftBus (readByte EFLG)
  liftBus (bitModify CANINTF (MERRF ||| WAKIF ||| ERRIF) 0#8)
  -- `TXBO`: bus-off.
  Prog.when (eflg &&& 0x20#8 ≠ 0#8) do
    liftBus (writeByte CANCTRL REQOP_CONFIG)
    delay 1
    liftBus (writeByte CANCTRL (REQOP_NORMAL ||| CLKOUT_ENABLED))
  -- Without a look at `TX0IF`: a request may still be pending in the controller.
  let v ← load .pendingTxBuf
  store .pendingTxBuf (v &&& ~~~0x01#8)
  give .txSemaphore

/-- The branch without an error flag. -/
def serviceFlags (intFlag : Byte) : Task Unit := do
  Prog.when (intFlag &&& RX0IF ≠ 0#8 ∨ intFlag &&& RX1IF ≠ 0#8) do
    let t ← load .lastIntTime
    store .lastRxTime t
  Prog.when (intFlag &&& RX0IF ≠ 0#8) do
    liftBus (bitModify CANINTF RX0IF 0#8)
    let v ← load .pendingRxBuf
    store .pendingRxBuf (v ||| 0x01#8)
  Prog.when (intFlag &&& RX1IF ≠ 0#8) do
    liftBus (bitModify CANINTF RX1IF 0#8)
    let v ← load .pendingRxBuf
    store .pendingRxBuf (v ||| 0x02#8)
  Prog.when (intFlag &&& TX0IF ≠ 0#8) do
    liftBus (bitModify CANINTF TX0IF 0#8)
    let v ← load .pendingTxBuf
    store .pendingTxBuf (v &&& ~~~0x01#8)
  -- All the flags of this turn are cleared before the first give.
  Prog.when (intFlag &&& RX0IF ≠ 0#8) do
    give .rxSemaphore
  Prog.when (intFlag &&& RX1IF ≠ 0#8) do
    give .rxSemaphore
  Prog.when (intFlag &&& TX0IF ≠ 0#8) do
    give .txSemaphore

/-- One turn of `run` from the head of a loop: the wait for the semaphores, or the polling loop
with the wait for an interrupt behind it. -/
def run : Loop → Task Loop
  | .await => do
      if ← semaphoresExist then
        pure .serve
      else do
        delay 10
        pure .await
  | .serve => do
      -- The pin is active low: high means that no enabled flag is set.
      if ← gpioGet then do
        take .intSemaphore
        pure .serve
      else do
        let intFlag ← liftBus (readByte CANINTF)
        if intFlag &&& (MERRF ||| WAKIF ||| ERRIF) ≠ 0#8 then do
          serviceError
          pure .serve
        else do
          serviceFlags intFlag
          pure .serve

/-! ## The calls of the user's tasks -/

/-- The arguments of a send. -/
structure SendCall where
  canId : BitVec 32
  buf : Nat → Byte
  len : Byte

def txBuffer0SendInTask (c : SendCall) : Task Unit := do
  let v ← load .pendingTxBuf
  Prog.when (v &&& 0x01#8 ≠ 0#8) do
    take .txSemaphore
  -- `_pendingTxBuf |= 0x01;` reads the mask again.
  let v ← load .pendingTxBuf
  store .pendingTxBuf (v ||| 0x01#8)
  liftBus (txBuffer0Send c.canId c.buf c.len)

/-- The bit of `_pendingRxBuf` for a buffer. -/
def bit : RxBuf → Byte
  | .b0 => 0x01
  | .b1 => 0x02

/-- The part of `rxReadInTask` behind the test of the mask; the result is what it stores through
its pointers, with the time. -/
def rxTake (n : RxBuf) (buf : Nat → Byte) (timestamp : Nat) : Task (Received × Nat) := do
  let v ← load .pendingRxBuf
  store .pendingRxBuf (v &&& ~~~bit n)
  let x ← liftBus (rxRead n buf)
  pure (x, timestamp)

def rxReadInTask (buf : Nat → Byte) : Task (Received × Nat) := do
  take .rxSemaphore
  let timestamp ← load .lastRxTime
  let v ← load .pendingRxBuf
  -- The mask alone decides: buffer 0 first, and buffer 1 without a test of its bit.
  if v &&& 0x01#8 ≠ 0#8 then
    rxTake .b0 buf timestamp
  else
    rxTake .b1 buf timestamp

/-! ## Sequencing -/

section Sequencing

variable {α β : Type}

@[simp] theorem liftBus_ret (x : α) : liftBus (.ret x : Driver α) = .ret x := rfl

@[simp] theorem liftBus_act (a : BusAct) (k : a.Ans → Driver α) :
    liftBus (.act a k) = .act (.bus a) fun r => liftBus (k r) := rfl

@[simp] theorem liftBus_readByte_bind (addr : Byte) (f : Byte → Task α) :
    (liftBus (readByte addr) >>= f) = .act (.bus (.readByte addr)) f := rfl

@[simp] theorem liftBus_writeByte_bind (addr d : Byte) (f : Unit → Task α) :
    (liftBus (writeByte addr d) >>= f) = .act (.bus (.writeByte addr d)) f := rfl

@[simp] theorem liftBus_bitModify_bind (addr m d : Byte) (f : Unit → Task α) :
    (liftBus (bitModify addr m d) >>= f) = .act (.bus (.bitModify addr m d)) f := rfl

@[simp] theorem semaphoresExist_bind (f : Bool → Task α) :
    (semaphoresExist >>= f) = .act .semaphoresExist f := rfl

@[simp] theorem gpioGet_bind (f : Bool → Task α) : (gpioGet >>= f) = .act .gpioGet f := rfl

@[simp] theorem take_bind (m : Sem) (f : Unit → Task α) : (take m >>= f) = .act (.take m) f := rfl

@[simp] theorem give_bind (m : Sem) (f : Unit → Task α) : (give m >>= f) = .act (.give m) f := rfl

@[simp] theorem load_bind (v : Shared) (f : v.Val → Task α) :
    (load v >>= f) = .act (.load v) f := rfl

@[simp] theorem store_bind (v : Shared) (x : v.Val) (f : Unit → Task α) :
    (store v x >>= f) = .act (.store v x) f := rfl

@[simp] theorem delay_bind (ms : Nat) (f : Unit → Task α) :
    (delay ms >>= f) = .act (.delay ms) f := rfl

end Sequencing

end Mcp2515Task
end PicoCppSdk
