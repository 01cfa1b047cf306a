import PicoCppSdk.Mcp2515Task.Program

/-!
# ControlPoint — where each party can be

The programs of `Mcp2515Task.Program` as automata of named control points.  A control point carries
the local variables that the rest of the code uses; `code` is that rest, and the three automata
unfold to the source's programs.
-/

namespace PicoCppSdk
namespace Mcp2515Task

open Atomic Mcp2515

/-! ## `canService` -/

/-- The control points of `run`.  `f` is the local `intFlag`, `v` a value loaded for a compound
assignment. -/
inductive RunPc where
  | await
  | awaitDelay
  | poll
  | block
  | readIntf
  | readEflg
  | clearErr (eflg : Byte)
  | reqConfig
  | settle
  | reqNormal
  | errLoad
  | errStore (v : Byte)
  | errGive
  | stampLoad (f : Byte)
  | stampStore (f : Byte) (t : Nat)
  | rxClear (n : RxBuf) (f : Byte)
  | rxLoad (n : RxBuf) (f : Byte)
  | rxStore (n : RxBuf) (f v : Byte)
  | txClear (f : Byte)
  | txLoad (f : Byte)
  | txStore (f v : Byte)
  | rxGive (n : RxBuf) (f : Byte)
  | txGive
  deriving DecidableEq

/-- The flag of a receive buffer in `CANINTF`. -/
def rxFlag : RxBuf → Byte
  | .b0 => RX0IF
  | .b1 => RX1IF

namespace RunPc

/-- The head of a loop. -/
def head : Loop → RunPc
  | .await => .await
  | .serve => .poll

/-- Where control goes on, the end of a turn leading to the head of the next loop. -/
def goto : RunPc ⊕ Loop → RunPc :=
  Sum.elim id head

/-- From `if (intFlag & TX0IF) { xSemaphoreGive(_txSemaphore); }` on. -/
def fromGiveTx (f : Byte) : RunPc ⊕ Loop :=
  if f &&& TX0IF ≠ 0#8 then .inl .txGive else .inr .serve

def fromGive1 (f : Byte) : RunPc ⊕ Loop :=
  if f &&& RX1IF ≠ 0#8 then .inl (.rxGive .b1 f) else fromGiveTx f

def fromGive0 (f : Byte) : RunPc ⊕ Loop :=
  if f &&& RX0IF ≠ 0#8 then .inl (.rxGive .b0 f) else fromGive1 f

/-- From `if (intFlag & TX0IF) { bitModify(…); … }` on. -/
def fromTx (f : Byte) : RunPc ⊕ Loop :=
  if f &&& TX0IF ≠ 0#8 then .inl (.txClear f) else fromGive0 f

def fromRx1 (f : Byte) : RunPc ⊕ Loop :=
  if f &&& RX1IF ≠ 0#8 then .inl (.rxClear .b1 f) else fromTx f

def fromRx0 (f : Byte) : RunPc ⊕ Loop :=
  if f &&& RX0IF ≠ 0#8 then .inl (.rxClear .b0 f) else fromRx1 f

/-- From the start of the branch without an error flag on. -/
def fromStamp (f : Byte) : RunPc ⊕ Loop :=
  if f &&& RX0IF ≠ 0#8 ∨ f &&& RX1IF ≠ 0#8 then .inl (.stampLoad f) else fromRx0 f

/-- What follows the statement that takes over buffer `n`. -/
def afterRx : RxBuf → Byte → RunPc ⊕ Loop
  | .b0 => fromRx1
  | .b1 => fromTx

/-- What follows the give for buffer `n`. -/
def afterGive : RxBuf → Byte → RunPc ⊕ Loop
  | .b0 => fromGive1
  | .b1 => fromGiveTx

/-- Where `run` goes on after it has read `CANINTF`. -/
def fromIntf (f : Byte) : RunPc ⊕ Loop :=
  if f &&& (MERRF ||| WAKIF ||| ERRIF) ≠ 0#8 then .inl .readEflg else fromStamp f

section Goto

variable (f : Byte)

@[simp] theorem goto_inl (p : RunPc) : goto (.inl p) = p := rfl

@[simp] theorem goto_serve : goto (.inr .serve) = .poll := rfl

theorem goto_fromGiveTx :
    goto (fromGiveTx f) = if f &&& TX0IF ≠ 0#8 then .txGive else .poll := by
  rw [fromGiveTx, apply_ite goto, goto_inl, goto_serve]

theorem goto_fromGive1 :
    goto (fromGive1 f) = if f &&& RX1IF ≠ 0#8 then .rxGive .b1 f else goto (fromGiveTx f) := by
  rw [fromGive1, apply_ite goto, goto_inl]

theorem goto_fromGive0 :
    goto (fromGive0 f) = if f &&& RX0IF ≠ 0#8 then .rxGive .b0 f else goto (fromGive1 f) := by
  rw [fromGive0, apply_ite goto, goto_inl]

theorem goto_fromTx :
    goto (fromTx f) = if f &&& TX0IF ≠ 0#8 then .txClear f else goto (fromGive0 f) := by
  rw [fromTx, apply_ite goto, goto_inl]

theorem goto_fromRx1 :
    goto (fromRx1 f) = if f &&& RX1IF ≠ 0#8 then .rxClear .b1 f else goto (fromTx f) := by
  rw [fromRx1, apply_ite goto, goto_inl]

theorem goto_fromRx0 :
    goto (fromRx0 f) = if f &&& RX0IF ≠ 0#8 then .rxClear .b0 f else goto (fromRx1 f) := by
  rw [fromRx0, apply_ite goto, goto_inl]

theorem goto_fromStamp :
    goto (fromStamp f) =
      if f &&& RX0IF ≠ 0#8 ∨ f &&& RX1IF ≠ 0#8 then .stampLoad f else goto (fromRx0 f) := by
  rw [fromStamp, apply_ite goto, goto_inl]

theorem goto_fromIntf :
    goto (fromIntf f) =
      if f &&& (MERRF ||| WAKIF ||| ERRIF) ≠ 0#8 then .readEflg else goto (fromStamp f) := by
  rw [fromIntf, apply_ite goto, goto_inl]

/-! Each continuation leads to one of the points behind it, at a flag that has been read. -/

variable {f} {P : RunPc → Prop}

theorem goto_fromGiveTx_of (hgiveTx : P .txGive) (hpoll : P .poll) : P (goto (fromGiveTx f)) := by
  rw [goto_fromGiveTx]
  split
  · exact hgiveTx
  · exact hpoll

theorem goto_fromGive1_of (hgive : ∀ n, f &&& rxFlag n ≠ 0#8 → P (.rxGive n f))
    (hgiveTx : P .txGive) (hpoll : P .poll) : P (goto (fromGive1 f)) := by
  rw [goto_fromGive1]
  split
  · rename_i hf
    exact hgive .b1 hf
  · exact goto_fromGiveTx_of hgiveTx hpoll

theorem goto_fromGive0_of (hgive : ∀ n, f &&& rxFlag n ≠ 0#8 → P (.rxGive n f))
    (hgiveTx : P .txGive) (hpoll : P .poll) : P (goto (fromGive0 f)) := by
  rw [goto_fromGive0]
  split
  · rename_i hf
    exact hgive .b0 hf
  · exact goto_fromGive1_of hgive hgiveTx hpoll

theorem goto_afterGive_of (n : RxBuf) (hgive : ∀ n, f &&& rxFlag n ≠ 0#8 → P (.rxGive n f))
    (hgiveTx : P .txGive) (hpoll : P .poll) : P (goto (afterGive n f)) := by
  cases n with
  | b0 => exact goto_fromGive1_of hgive hgiveTx hpoll
  | b1 => exact goto_fromGiveTx_of hgiveTx hpoll

theorem goto_fromTx_of (htx : f &&& TX0IF ≠ 0#8 → P (.txClear f))
    (hgive : ∀ n, f &&& rxFlag n ≠ 0#8 → P (.rxGive n f)) (hgiveTx : P .txGive)
    (hpoll : P .poll) : P (goto (fromTx f)) := by
  rw [goto_fromTx]
  split
  · rename_i hf
    exact htx hf
  · exact goto_fromGive0_of hgive hgiveTx hpoll

theorem goto_fromRx1_of (hrx : ∀ n, f &&& rxFlag n ≠ 0#8 → P (.rxClear n f))
    (htx : f &&& TX0IF ≠ 0#8 → P (.txClear f))
    (hgive : ∀ n, f &&& rxFlag n ≠ 0#8 → P (.rxGive n f)) (hgiveTx : P .txGive)
    (hpoll : P .poll) : P (goto (fromRx1 f)) := by
  rw [goto_fromRx1]
  split
  · rename_i hf
    exact hrx .b1 hf
  · exact goto_fromTx_of htx hgive hgiveTx hpoll

theorem goto_afterRx_of (n : RxBuf) (hrx : ∀ n, f &&& rxFlag n ≠ 0#8 → P (.rxClear n f))
    (htx : f &&& TX0IF ≠ 0#8 → P (.txClear f))
    (hgive : ∀ n, f &&& rxFlag n ≠ 0#8 → P (.rxGive n f)) (hgiveTx : P .txGive)
    (hpoll : P .poll) : P (goto (afterRx n f)) := by
  cases n with
  | b0 => exact goto_fromRx1_of hrx htx hgive hgiveTx hpoll
  | b1 => exact goto_fromTx_of htx hgive hgiveTx hpoll

theorem goto_fromRx0_of (hrx : ∀ n, f &&& rxFlag n ≠ 0#8 → P (.rxClear n f))
    (htx : f &&& TX0IF ≠ 0#8 → P (.txClear f))
    (hgive : ∀ n, f &&& rxFlag n ≠ 0#8 → P (.rxGive n f)) (hgiveTx : P .txGive)
    (hpoll : P .poll) : P (goto (fromRx0 f)) := by
  rw [goto_fromRx0]
  split
  · rename_i hf
    exact hrx .b0 hf
  · exact goto_fromRx1_of hrx htx hgive hgiveTx hpoll

theorem goto_fromStamp_of (hstamp : P (.stampLoad f))
    (hrx : ∀ n, f &&& rxFlag n ≠ 0#8 → P (.rxClear n f))
    (htx : f &&& TX0IF ≠ 0#8 → P (.txClear f))
    (hgive : ∀ n, f &&& rxFlag n ≠ 0#8 → P (.rxGive n f)) (hgiveTx : P .txGive)
    (hpoll : P .poll) : P (goto (fromStamp f)) := by
  rw [goto_fromStamp]
  split
  · exact hstamp
  · exact goto_fromRx0_of hrx htx hgive hgiveTx hpoll

/-! With `TX0IF` read, `run` comes to the give only through the store, and to the poll only through
the give. -/

section TxFlag

variable (hf : f &&& TX0IF ≠ 0#8)
include hf

theorem goto_fromGiveTx_of_tx (hgiveTx : P .txGive) : P (goto (fromGiveTx f)) := by
  rw [goto_fromGiveTx, if_pos hf]
  exact hgiveTx

theorem goto_fromGive1_of_tx (hgive : ∀ n, P (.rxGive n f)) (hgiveTx : P .txGive) :
    P (goto (fromGive1 f)) := by
  rw [goto_fromGive1]
  split
  · exact hgive .b1
  · exact goto_fromGiveTx_of_tx hf hgiveTx

theorem goto_fromGive0_of_tx (hgive : ∀ n, P (.rxGive n f)) (hgiveTx : P .txGive) :
    P (goto (fromGive0 f)) := by
  rw [goto_fromGive0]
  split
  · exact hgive .b0
  · exact goto_fromGive1_of_tx hf hgive hgiveTx

theorem goto_afterGive_of_tx (n : RxBuf) (hgive : ∀ n, P (.rxGive n f)) (hgiveTx : P .txGive) :
    P (goto (afterGive n f)) := by
  cases n with
  | b0 => exact goto_fromGive1_of_tx hf hgive hgiveTx
  | b1 => exact goto_fromGiveTx_of_tx hf hgiveTx

theorem goto_fromTx_of_tx (htx : P (.txClear f)) : P (goto (fromTx f)) := by
  rw [goto_fromTx, if_pos hf]
  exact htx

theorem goto_fromRx1_of_tx (hrx : P (.rxClear .b1 f)) (htx : P (.txClear f)) :
    P (goto (fromRx1 f)) := by
  rw [goto_fromRx1]
  split
  · exact hrx
  · exact goto_fromTx_of_tx hf htx

theorem goto_fromRx0_of_tx (hrx : ∀ n, P (.rxClear n f)) (htx : P (.txClear f)) :
    P (goto (fromRx0 f)) := by
  rw [goto_fromRx0]
  split
  · exact hrx .b0
  · exact goto_fromRx1_of_tx hf (hrx .b1) htx

theorem goto_afterRx_of_tx (n : RxBuf) (hrx : P (.rxClear .b1 f)) (htx : P (.txClear f)) :
    P (goto (afterRx n f)) := by
  cases n with
  | b0 => exact goto_fromRx1_of_tx hf hrx htx
  | b1 => exact goto_fromTx_of_tx hf htx

theorem goto_fromStamp_of_tx (hstamp : P (.stampLoad f)) (hrx : ∀ n, P (.rxClear n f))
    (htx : P (.txClear f)) : P (goto (fromStamp f)) := by
  rw [goto_fromStamp]
  split
  · exact hstamp
  · exact goto_fromRx0_of_tx hf hrx htx

end TxFlag

end Goto

def act : RunPc → Act
  | .await => .semaphoresExist
  | .awaitDelay => .delay 10
  | .poll => .gpioGet
  | .block => .take .intSemaphore
  | .readIntf => .bus (.readByte CANINTF)
  | .readEflg => .bus (.readByte EFLG)
  | .clearErr _ => .bus (.bitModify CANINTF (MERRF ||| WAKIF ||| ERRIF) 0#8)
  | .reqConfig => .bus (.writeByte CANCTRL REQOP_CONFIG)
  | .settle => .delay 1
  | .reqNormal => .bus (.writeByte CANCTRL (REQOP_NORMAL ||| CLKOUT_ENABLED))
  | .errLoad => .load .pendingTxBuf
  | .errStore v => .store .pendingTxBuf (v &&& ~~~0x01#8)
  | .errGive => .give .txSemaphore
  | .stampLoad _ => .load .lastIntTime
  | .stampStore _ t => .store .lastRxTime t
  | .rxClear n _ => .bus (.bitModify CANINTF (rxFlag n) 0#8)
  | .rxLoad _ _ => .load .pendingRxBuf
  | .rxStore n _ v => .store .pendingRxBuf (v ||| bit n)
  | .txClear _ => .bus (.bitModify CANINTF TX0IF 0#8)
  | .txLoad _ => .load .pendingTxBuf
  | .txStore _ v => .store .pendingTxBuf (v &&& ~~~0x01#8)
  | .rxGive _ _ => .give .rxSemaphore
  | .txGive => .give .txSemaphore

def next : (p : RunPc) → (act p).Ans → RunPc ⊕ Loop
  | .await, true => .inr .serve
  | .await, false => .inl .awaitDelay
  | .awaitDelay, _ => .inr .await
  | .poll, true => .inl .block
  | .poll, false => .inl .readIntf
  | .block, _ => .inr .serve
  | .readIntf, f => fromIntf f
  -- The error branch comes back to the loop without a look at the other flags.
  | .readEflg, eflg => .inl (.clearErr eflg)
  | .clearErr eflg, _ => .inl (if eflg &&& 0x20#8 ≠ 0#8 then .reqConfig else .errLoad)
  | .reqConfig, _ => .inl .settle
  | .settle, _ => .inl .reqNormal
  | .reqNormal, _ => .inl .errLoad
  | .errLoad, v => .inl (.errStore v)
  | .errStore _, _ => .inl .errGive
  | .errGive, _ => .inr .serve
  | .stampLoad f, t => .inl (.stampStore f t)
  | .stampStore f _, _ => fromRx0 f
  | .rxClear n f, _ => .inl (.rxLoad n f)
  | .rxLoad n f, v => .inl (.rxStore n f v)
  | .rxStore n f _, _ => afterRx n f
  | .txClear f, _ => .inl (.txLoad f)
  | .txLoad f, v => .inl (.txStore f v)
  | .txStore f _, _ => fromGive0 f
  | .rxGive n f, _ => afterGive n f
  | .txGive, _ => .inr .serve

end RunPc

def runAutomaton : Automaton Act Act.Ans RunPc Loop where
  act := RunPc.act
  next := RunPc.next

/-! ## The rest of `run` -/

namespace RunPc

/-- `_pendingTxBuf &= ~0x01;` -/
def clearTx : Task Unit := do
  let v ← load .pendingTxBuf
  store .pendingTxBuf (v &&& ~~~0x01#8)

def giveTxCode (f : Byte) : Task Loop := do
  Prog.when (f &&& TX0IF ≠ 0#8) do
    give .txSemaphore
  pure .serve

def give1Code (f : Byte) : Task Loop := do
  Prog.when (f &&& RX1IF ≠ 0#8) do
    give .rxSemaphore
  giveTxCode f

def give0Code (f : Byte) : Task Loop := do
  Prog.when (f &&& RX0IF ≠ 0#8) do
    give .rxSemaphore
  give1Code f

def txCode (f : Byte) : Task Loop := do
  Prog.when (f &&& TX0IF ≠ 0#8) do
    liftBus (bitModify CANINTF TX0IF 0#8)
    clearTx
  give0Code f

def rx1Code (f : Byte) : Task Loop := do
  Prog.when (f &&& RX1IF ≠ 0#8) do
    liftBus (bitModify CANINTF RX1IF 0#8)
    let v ← load .pendingRxBuf
    store .pendingRxBuf (v ||| 0x02#8)
  txCode f

def rx0Code (f : Byte) : Task Loop := do
  Prog.when (f &&& RX0IF ≠ 0#8) do
    liftBus (bitModify CANINTF RX0IF 0#8)
    let v ← load .pendingRxBuf
    store .pendingRxBuf (v ||| 0x01#8)
  rx1Code f

def stampCode (f : Byte) : Task Loop := do
  Prog.when (f &&& RX0IF ≠ 0#8 ∨ f &&& RX1IF ≠ 0#8) do
    let t ← load .lastIntTime
    store .lastRxTime t
  rx0Code f

def afterRxCode : RxBuf → Byte → Task Loop
  | .b0 => rx1Code
  | .b1 => txCode

def afterGiveCode : RxBuf → Byte → Task Loop
  | .b0 => give1Code
  | .b1 => giveTxCode

def errCode : Task Loop := do
  clearTx
  give .txSemaphore
  pure .serve

def recoverCode (eflg : Byte) : Task Loop := do
  Prog.when (eflg &&& 0x20#8 ≠ 0#8) do
    liftBus (writeByte CANCTRL REQOP_CONFIG)
    delay 1
    liftBus (writeByte CANCTRL (REQOP_NORMAL ||| CLKOUT_ENABLED))
  errCode

def intfCode (intFlag : Byte) : Task Loop :=
  if intFlag &&& (MERRF ||| WAKIF ||| ERRIF) ≠ 0#8 then do
    serviceError
    pure .serve
  else do
    serviceFlags intFlag
    pure .serve

/-- The rest of a turn of `run` at a control point. -/
def code : RunPc → Task Loop
  | .await => run .await
  | .awaitDelay => do
      delay 10
      pure .await
  | .poll => run .serve
  | .block => do
      take .intSemaphore
      pure .serve
  | .readIntf => do
      let intFlag ← liftBus (readByte CANINTF)
      intfCode intFlag
  | .readEflg => do
      serviceError
      pure .serve
  | .clearErr eflg => do
      liftBus (bitModify CANINTF (MERRF ||| WAKIF ||| ERRIF) 0#8)
      recoverCode eflg
  | .reqConfig => do
      liftBus (writeByte CANCTRL REQOP_CONFIG)
      delay 1
      liftBus (writeByte CANCTRL (REQOP_NORMAL ||| CLKOUT_ENABLED))
      errCode
  | .settle => do
      delay 1
      liftBus (writeByte CANCTRL (REQOP_NORMAL ||| CLKOUT_ENABLED))
      errCode
  | .reqNormal => do
      liftBus (writeByte CANCTRL (REQOP_NORMAL ||| CLKOUT_ENABLED))
      errCode
  | .errLoad => errCode
  | .errStore v => do
      store .pendingTxBuf (v &&& ~~~0x01#8)
      give .txSemaphore
      pure .serve
  | .errGive => do
      give .txSemaphore
      pure .serve
  | .stampLoad f => do
      let t ← load .lastIntTime
      store .lastRxTime t
      rx0Code f
  | .stampStore f t => do
      store .lastRxTime t
      rx0Code f
  | .rxClear n f => do
      liftBus (bitModify CANINTF (rxFlag n) 0#8)
      let v ← load .pendingRxBuf
      store .pendingRxBuf (v ||| bit n)
      afterRxCode n f
  | .rxLoad n f => do
      let v ← load .pendingRxBuf
      store .pendingRxBuf (v ||| bit n)
      afterRxCode n f
  | .rxStore n f v => do
      store .pendingRxBuf (v ||| bit n)
      afterRxCode n f
  | .txClear f => do
      liftBus (bitModify CANINTF TX0IF 0#8)
      clearTx
      give0Code f
  | .txLoad f => do
      clearTx
      give0Code f
  | .txStore f v => do
      store .pendingTxBuf (v &&& ~~~0x01#8)
      give0Code f
  | .rxGive n f => do
      give .rxSemaphore
      afterGiveCode n f
  | .txGive => do
      give .txSemaphore
      pure .serve

/-! ### The continuations agree with the code -/

/-- The code at the place to which a step leads. -/
abbrev codeAt (q : RunPc ⊕ Loop) : Task Loop :=
  q.elim code .ret

theorem codeAt_fromGiveTx (f : Byte) : codeAt (fromGiveTx f) = giveTxCode f := by
  by_cases h : f &&& TX0IF ≠ 0#8
  · simp only [fromGiveTx, giveTxCode, if_pos h, Prog.when_pos h]
    rfl
  · simp only [fromGiveTx, giveTxCode, if_neg h, Prog.when_neg h]
    rfl

theorem codeAt_fromGive1 (f : Byte) : codeAt (fromGive1 f) = give1Code f := by
  by_cases h : f &&& RX1IF ≠ 0#8
  · simp only [fromGive1, give1Code, if_pos h, Prog.when_pos h]
    rfl
  · simp only [fromGive1, give1Code, if_neg h, Prog.when_neg h, codeAt_fromGiveTx]
    rfl

theorem codeAt_fromGive0 (f : Byte) : codeAt (fromGive0 f) = give0Code f := by
  by_cases h : f &&& RX0IF ≠ 0#8
  · simp only [fromGive0, give0Code, if_pos h, Prog.when_pos h]
    rfl
  · simp only [fromGive0, give0Code, if_neg h, Prog.when_neg h, codeAt_fromGive1]
    rfl

theorem codeAt_fromTx (f : Byte) : codeAt (fromTx f) = txCode f := by
  by_cases h : f &&& TX0IF ≠ 0#8
  · simp only [fromTx, txCode, if_pos h, Prog.when_pos h]
    rfl
  · simp only [fromTx, txCode, if_neg h, Prog.when_neg h, codeAt_fromGive0]
    rfl

theorem codeAt_fromRx1 (f : Byte) : codeAt (fromRx1 f) = rx1Code f := by
  by_cases h : f &&& RX1IF ≠ 0#8
  · simp only [fromRx1, rx1Code, if_pos h, Prog.when_pos h]
    rfl
  · simp only [fromRx1, rx1Code, if_neg h, Prog.when_neg h, codeAt_fromTx]
    rfl

theorem codeAt_fromRx0 (f : Byte) : codeAt (fromRx0 f) = rx0Code f := by
  by_cases h : f &&& RX0IF ≠ 0#8
  · simp only [fromRx0, rx0Code, if_pos h, Prog.when_pos h]
    rfl
  · simp only [fromRx0, rx0Code, if_neg h, Prog.when_neg h, codeAt_fromRx1]
    rfl

theorem codeAt_fromStamp (f : Byte) : codeAt (fromStamp f) = stampCode f := by
  by_cases h : f &&& RX0IF ≠ 0#8 ∨ f &&& RX1IF ≠ 0#8
  · simp only [fromStamp, stampCode, if_pos h, Prog.when_pos h]
    rfl
  · simp only [fromStamp, stampCode, if_neg h, Prog.when_neg h, codeAt_fromRx0]
    rfl

/-- The statements of `serviceFlags`, cut at the control points, are the same code. -/
theorem stampCode_eq (f : Byte) :
    stampCode f = (do serviceFlags f; pure .serve) := by
  simp only [stampCode, rx0Code, rx1Code, txCode, give0Code, give1Code, giveTxCode, clearTx,
    serviceFlags, Prog.bind_assoc]

/-- So are those of `serviceError`. -/
theorem serviceError_eq :
    (do serviceError; pure .serve : Task Loop) =
      .act (.bus (.readByte EFLG)) fun eflg => code (.clearErr eflg) := by
  simp only [serviceError, code, recoverCode, errCode, clearTx, Prog.bind_assoc]
  rfl

theorem codeAt_fromIntf (f : Byte) : codeAt (fromIntf f) = intfCode f := by
  by_cases h : f &&& (MERRF ||| WAKIF ||| ERRIF) ≠ 0#8
  · simp only [fromIntf, intfCode, if_pos h]
    rfl
  · simp only [fromIntf, intfCode, if_neg h]
    exact (codeAt_fromStamp f).trans (stampCode_eq f)

end RunPc

/-- The automaton of `canService` is the loop body of the source. -/
theorem runAutomaton_unfolds : runAutomaton.Unfolds RunPc.code := by
  intro p
  cases p with
  | await =>
      refine congrArg (Prog.act _) (funext fun exist => ?_)
      cases exist <;> rfl
  | awaitDelay => rfl
  | poll =>
      refine congrArg (Prog.act _) (funext fun high => ?_)
      cases high <;> rfl
  | block => rfl
  | readIntf =>
      refine congrArg (Prog.act _) (funext fun f => ?_)
      exact (RunPc.codeAt_fromIntf f).symm
  | readEflg => exact RunPc.serviceError_eq
  | clearErr eflg =>
      refine congrArg (Prog.act _) (funext fun _ => ?_)
      by_cases h : eflg &&& 0x20#8 ≠ 0#8
      · simp only [runAutomaton, RunPc.next, RunPc.recoverCode, if_pos h, Prog.when_pos h]
        rfl
      · simp only [runAutomaton, RunPc.next, RunPc.recoverCode, if_neg h, Prog.when_neg h]
        rfl
  | reqConfig => rfl
  | settle => rfl
  | reqNormal => rfl
  | errLoad => rfl
  | errStore v => rfl
  | errGive => rfl
  | stampLoad f => rfl
  | stampStore f t =>
      refine congrArg (Prog.act _) (funext fun _ => ?_)
      exact (RunPc.codeAt_fromRx0 f).symm
  | rxClear n f => rfl
  | rxLoad n f => rfl
  | rxStore n f v =>
      refine congrArg (Prog.act _) (funext fun _ => ?_)
      cases n with
      -- Behind RXB0 comes the test for RXB1, behind RXB1 that for TXB0.
      | b0 => exact (RunPc.codeAt_fromRx1 f).symm
      | b1 => exact (RunPc.codeAt_fromTx f).symm
  | txClear f => rfl
  | txLoad f => rfl
  | txStore f v =>
      refine congrArg (Prog.act _) (funext fun _ => ?_)
      exact (RunPc.codeAt_fromGive0 f).symm
  | rxGive n f =>
      refine congrArg (Prog.act _) (funext fun _ => ?_)
      cases n with
      -- The gives follow the order of the flags as well.
      | b0 => exact (RunPc.codeAt_fromGive1 f).symm
      | b1 => exact (RunPc.codeAt_fromGiveTx f).symm
  | txGive => rfl

/-! ## `rxReadInTask` -/

/-- The control points of `rxReadInTask`.  `reading n` is inside the read of buffer `n`, whose next
transaction is `a` and whose rest is `k`. -/
inductive ReadPc where
  | take (buf : Nat → Byte)
  | stamp (buf : Nat → Byte)
  | test (buf : Nat → Byte) (t : Nat)
  | load (n : RxBuf) (buf : Nat → Byte) (t : Nat)
  | store (n : RxBuf) (buf : Nat → Byte) (t : Nat) (v : Byte)
  | reading (n : RxBuf) (t : Nat) (a : BusAct) (k : a.Ans → Driver Received)

namespace ReadPc

/-- The buffer that the call reads.  A call returns from `reading` only, so it does not matter that
the first control points have no buffer yet. -/
def buffer : ReadPc → RxBuf
  | .take _ => .b0
  | .stamp _ => .b0
  | .test _ _ => .b0
  | .load n _ _ => n
  | .store n _ _ _ => n
  | .reading n _ _ _ => n

/-- The branch of `rxReadInTask` for the mask `v`. -/
def fromTest (buf : Nat → Byte) (t : Nat) (v : Byte) : ReadPc :=
  if v &&& 0x01#8 ≠ 0#8 then .load .b0 buf t else .load .b1 buf t

/-- Inside the read of buffer `n`, or at its end. -/
def ofRead (n : RxBuf) (t : Nat) : Driver Received → ReadPc ⊕ (Received × Nat)
  | .ret x => .inr (x, t)
  | .act a k => .inl (.reading n t a k)

def act : ReadPc → Act
  | .take _ => .take .rxSemaphore
  | .stamp _ => .load .lastRxTime
  | .test _ _ => .load .pendingRxBuf
  | .load _ _ _ => .load .pendingRxBuf
  | .store n _ _ v => .store .pendingRxBuf (v &&& ~~~bit n)
  | .reading _ _ a _ => .bus a

def next : (p : ReadPc) → (act p).Ans → ReadPc ⊕ (Received × Nat)
  | .take buf, _ => .inl (.stamp buf)
  | .stamp buf, t => .inl (.test buf t)
  | .test buf t, v => .inl (fromTest buf t v)
  | .load n buf t, v => .inl (.store n buf t v)
  | .store n buf t _, _ => ofRead n t (rxRead n buf)
  | .reading n t _ k, r => ofRead n t (k r)

def code : ReadPc → Task (Received × Nat)
  | .take buf => rxReadInTask buf
  | .stamp buf => do
      let timestamp ← Mcp2515Task.load .lastRxTime
      let v ← Mcp2515Task.load .pendingRxBuf
      if v &&& 0x01#8 ≠ 0#8 then rxTake .b0 buf timestamp else rxTake .b1 buf timestamp
  | .test buf t => do
      let v ← Mcp2515Task.load .pendingRxBuf
      if v &&& 0x01#8 ≠ 0#8 then rxTake .b0 buf t else rxTake .b1 buf t
  | .load n buf t => rxTake n buf t
  | .store n buf t v => do
      Mcp2515Task.store .pendingRxBuf (v &&& ~~~bit n)
      let x ← liftBus (rxRead n buf)
      pure (x, t)
  | .reading _ t a k => do
      let x ← liftBus (.act a k)
      pure (x, t)

theorem code_fromTest (buf : Nat → Byte) (t : Nat) (v : Byte) :
    (fromTest buf t v).code =
      if v &&& 0x01#8 ≠ 0#8 then rxTake .b0 buf t else rxTake .b1 buf t := by
  by_cases h : v &&& 0x01#8 ≠ 0#8
  · simp only [fromTest, if_pos h, code]
  · simp only [fromTest, if_neg h, code]

theorem codeAt_ofRead (n : RxBuf) (t : Nat) (p : Driver Received) :
    (ofRead n t p).elim code .ret = (do let x ← liftBus p; pure (x, t)) := by
  cases p with
  | ret x => rfl
  | act a k => rfl

end ReadPc

def readAutomaton : Automaton Act Act.Ans ReadPc (Received × Nat) where
  act := ReadPc.act
  next := ReadPc.next

theorem readAutomaton_unfolds : readAutomaton.Unfolds ReadPc.code := by
  intro p
  cases p with
  | take buf => rfl
  | stamp buf => rfl
  | test buf t =>
      refine congrArg (Prog.act _) (funext fun v => ?_)
      exact (ReadPc.code_fromTest buf t v).symm
  | load n buf t => rfl
  | store n buf t v =>
      refine congrArg (Prog.act _) (funext fun _ => ?_)
      exact (ReadPc.codeAt_ofRead n t (rxRead n buf)).symm
  | reading n t a k =>
      refine congrArg (Prog.act _) (funext fun r => ?_)
      exact (ReadPc.codeAt_ofRead n t (k r)).symm

/-! ## `txBuffer0SendInTask` -/

/-- The control points of `txBuffer0SendInTask`.  `sending` is inside `txBuffer0Send`, whose next
transaction is `a` and whose rest is `k`. -/
inductive SendPc where
  | test (c : SendCall)
  | take (c : SendCall)
  | load (c : SendCall)
  | store (c : SendCall) (v : Byte)
  | sending (c : SendCall) (a : BusAct) (k : a.Ans → Driver Unit)

namespace SendPc

/-- Past the gate at once, or through the semaphore, for the mask `v`. -/
def fromTest (c : SendCall) (v : Byte) : SendPc :=
  if v &&& 0x01#8 ≠ 0#8 then .take c else .load c

/-- Inside `txBuffer0Send`, or at its end. -/
def ofSend (c : SendCall) : Driver Unit → SendPc ⊕ Unit
  | .ret x => .inr x
  | .act a k => .inl (.sending c a k)

def act : SendPc → Act
  | .test _ => .load .pendingTxBuf
  | .take _ => .take .txSemaphore
  | .load _ => .load .pendingTxBuf
  | .store _ v => .store .pendingTxBuf (v ||| 0x01#8)
  | .sending _ a _ => .bus a

def next : (p : SendPc) → (act p).Ans → SendPc ⊕ Unit
  | .test c, v => .inl (fromTest c v)
  | .take c, _ => .inl (.load c)
  | .load c, v => .inl (.store c v)
  | .store c _, _ => ofSend c (txBuffer0Send c.canId c.buf c.len)
  | .sending c _ k, r => ofSend c (k r)

def code : SendPc → Task Unit
  | .test c => txBuffer0SendInTask c
  | .take c => do
      Mcp2515Task.take .txSemaphore
      let v ← Mcp2515Task.load .pendingTxBuf
      Mcp2515Task.store .pendingTxBuf (v ||| 0x01#8)
      liftBus (txBuffer0Send c.canId c.buf c.len)
  | .load c => do
      let v ← Mcp2515Task.load .pendingTxBuf
      Mcp2515Task.store .pendingTxBuf (v ||| 0x01#8)
      liftBus (txBuffer0Send c.canId c.buf c.len)
  | .store c v => do
      Mcp2515Task.store .pendingTxBuf (v ||| 0x01#8)
      liftBus (txBuffer0Send c.canId c.buf c.len)
  | .sending _ a k => liftBus (.act a k)

theorem code_fromTest (c : SendCall) (v : Byte) :
    (fromTest c v).code = (do
      Prog.when (v &&& 0x01#8 ≠ 0#8) do
        Mcp2515Task.take .txSemaphore
      code (.load c)) := by
  by_cases h : v &&& 0x01#8 ≠ 0#8
  · simp only [fromTest, if_pos h, Prog.when_pos h]
    rfl
  · simp only [fromTest, if_neg h, Prog.when_neg h]
    rfl

theorem codeAt_ofSend (c : SendCall) (p : Driver Unit) :
    (ofSend c p).elim code .ret = liftBus p := by
  cases p with
  | ret x => rfl
  | act a k => rfl

end SendPc

def sendAutomaton : Automaton Act Act.Ans SendPc Unit where
  act := SendPc.act
  next := SendPc.next

theorem sendAutomaton_unfolds : sendAutomaton.Unfolds SendPc.code := by
  intro p
  cases p with
  | test c =>
      refine congrArg (Prog.act _) (funext fun v => ?_)
      exact (SendPc.code_fromTest c v).symm
  | take c => rfl
  | load c => rfl
  | store c v =>
      refine congrArg (Prog.act _) (funext fun _ => ?_)
      exact (SendPc.codeAt_ofSend c _).symm
  | sending c a k =>
      refine congrArg (Prog.act _) (funext fun r => ?_)
      exact (SendPc.codeAt_ofSend c (k r)).symm

end Mcp2515Task
end PicoCppSdk
