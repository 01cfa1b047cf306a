import PicoCppSdk.Mcp2515Task.System

/-!
# Move — what each step can do

One case per control point of each party, with the state after the step written out.  The invariants
of the later modules are shown by cases on these relations and never unfold the automata.
-/

namespace PicoCppSdk
namespace Mcp2515Task

open Atomic Mcp2515 Transition

variable {s t : Sys}

/-! ## `canService` -/

/-- The steps of `canService`. -/
inductive CanMove (s : Sys) : Sys → Prop where
  | awaitDone (hpc : s.can = .await) : CanMove s { s with can := .poll }
  | awaitMore (hpc : s.can = .await) : CanMove s { s with can := .awaitDelay }
  | awaitDelay (hpc : s.can = .awaitDelay) : CanMove s { s with can := .await }
  | pollHigh (hpc : s.can = .poll) (hint : s.intHigh = true) : CanMove s { s with can := .block }
  | pollLow (hpc : s.can = .poll) (hint : s.intHigh = false) :
      CanMove s { s with can := .readIntf }
  | block (hpc : s.can = .block) (hsem : s.intSem = true) :
      CanMove s { s with intSem := false, can := .poll }
  | readIntf (hpc : s.can = .readIntf) :
      CanMove s { s with can := RunPc.goto (RunPc.fromIntf (s.regs CANINTF)) }
  | readEflg (hpc : s.can = .readEflg) : CanMove s { s with can := .clearErr (s.regs EFLG) }
  | clearErr (eflg : Byte) (hpc : s.can = .clearErr eflg) :
      CanMove s { s with
        regs := s.regs.modify CANINTF (MERRF ||| WAKIF ||| ERRIF) 0#8
        can := if eflg &&& 0x20#8 ≠ 0#8 then .reqConfig else .errLoad }
  | reqConfig (hpc : s.can = .reqConfig) :
      CanMove s { s with regs := s.regs.write CANCTRL REQOP_CONFIG, can := .settle }
  | settle (hpc : s.can = .settle) : CanMove s { s with can := .reqNormal }
  | reqNormal (hpc : s.can = .reqNormal) :
      CanMove s { s with
        regs := s.regs.write CANCTRL (REQOP_NORMAL ||| CLKOUT_ENABLED), can := .errLoad }
  | errLoad (hpc : s.can = .errLoad) : CanMove s { s with can := .errStore s.pendingTxBuf }
  | errStore (v : Byte) (hpc : s.can = .errStore v) :
      CanMove s { s with pendingTxBuf := v &&& ~~~0x01#8, can := .errGive }
  | errGive (hpc : s.can = .errGive) : CanMove s { s with txSem := true, can := .poll }
  | stampLoad (f : Byte) (hpc : s.can = .stampLoad f) :
      CanMove s { s with can := .stampStore f s.lastIntTime }
  | stampStore (f : Byte) (now : Nat) (hpc : s.can = .stampStore f now) :
      CanMove s { s with lastRxTime := now, can := RunPc.goto (RunPc.fromRx0 f) }
  | rxClear (n : RxBuf) (f : Byte) (hpc : s.can = .rxClear n f) :
      CanMove s { s with regs := s.regs.modify CANINTF (rxFlag n) 0#8, can := .rxLoad n f }
  | rxLoad (n : RxBuf) (f : Byte) (hpc : s.can = .rxLoad n f) :
      CanMove s { s with can := .rxStore n f s.pendingRxBuf }
  | rxStore (n : RxBuf) (f v : Byte) (hpc : s.can = .rxStore n f v) :
      CanMove s { s with pendingRxBuf := v ||| bit n, can := RunPc.goto (RunPc.afterRx n f) }
  | txClear (f : Byte) (hpc : s.can = .txClear f) :
      CanMove s { s with regs := s.regs.modify CANINTF TX0IF 0#8, can := .txLoad f }
  | txLoad (f : Byte) (hpc : s.can = .txLoad f) :
      CanMove s { s with can := .txStore f s.pendingTxBuf }
  | txStore (f v : Byte) (hpc : s.can = .txStore f v) :
      CanMove s { s with
        pendingTxBuf := v &&& ~~~0x01#8, can := RunPc.goto (RunPc.fromGive0 f) }
  | rxGive (n : RxBuf) (f : Byte) (hpc : s.can = .rxGive n f) :
      CanMove s { s with
        rxSem := min 2 (s.rxSem + 1), can := RunPc.goto (RunPc.afterGive n f) }
  | txGive (hpc : s.can = .txGive) : CanMove s { s with txSem := true, can := .poll }

/-- `canStep`, for a known control point. -/
theorem canStep_at {p : RunPc} (hpc : s.can = p) :
    s.canStep = (Sys.perform p.act s).map fun rs =>
      { rs.2 with can := RunPc.goto (p.next rs.1) } := by
  subst hpc
  simp only [Sys.canStep, Automaton.step, runAutomaton, Option.map_map]
  rfl

theorem canMove_of_canStep (h : s.canStep = some t) : CanMove s t := by
  cases hpc : s.can with
  | await =>
      rw [canStep_at hpc] at h
      cases hcreated : s.created with
      | true =>
          have hnext : RunPc.next .await s.created = .inr .serve := by rw [hcreated]; rfl
          simp only [RunPc.act, Sys.perform, Option.map_some, hnext, Option.some.injEq] at h
          exact h ▸ .awaitDone hpc
      | false =>
          have hnext : RunPc.next .await s.created = .inl .awaitDelay := by rw [hcreated]; rfl
          simp only [RunPc.act, Sys.perform, Option.map_some, hnext, Option.some.injEq] at h
          exact h ▸ .awaitMore hpc
  | awaitDelay =>
      exact Option.some.inj ((canStep_at hpc).symm.trans h) ▸ .awaitDelay hpc
  | poll =>
      rw [canStep_at hpc] at h
      cases hint : s.intHigh with
      | true =>
          simp only [RunPc.act, Sys.perform, Option.map_some, hint, Option.some.injEq] at h
          exact h ▸ .pollHigh hpc hint
      | false =>
          simp only [RunPc.act, Sys.perform, Option.map_some, hint, Option.some.injEq] at h
          exact h ▸ .pollLow hpc hint
  | block =>
      rw [canStep_at hpc] at h
      cases hsem : s.intSem with
      | true =>
          simp only [RunPc.act, Sys.perform, Sys.take, hsem, if_true, Option.map_some,
            Option.some.injEq] at h
          exact h ▸ .block hpc hsem
      | false => simp [RunPc.act, Sys.perform, Sys.take, hsem] at h
  -- From here on no action blocks, and each has one outcome.
  | readIntf => exact Option.some.inj ((canStep_at hpc).symm.trans h) ▸ .readIntf hpc
  | readEflg => exact Option.some.inj ((canStep_at hpc).symm.trans h) ▸ .readEflg hpc
  | clearErr eflg => exact Option.some.inj ((canStep_at hpc).symm.trans h) ▸ .clearErr eflg hpc
  | reqConfig => exact Option.some.inj ((canStep_at hpc).symm.trans h) ▸ .reqConfig hpc
  | settle => exact Option.some.inj ((canStep_at hpc).symm.trans h) ▸ .settle hpc
  | reqNormal => exact Option.some.inj ((canStep_at hpc).symm.trans h) ▸ .reqNormal hpc
  | errLoad => exact Option.some.inj ((canStep_at hpc).symm.trans h) ▸ .errLoad hpc
  | errStore v => exact Option.some.inj ((canStep_at hpc).symm.trans h) ▸ .errStore v hpc
  | errGive => exact Option.some.inj ((canStep_at hpc).symm.trans h) ▸ .errGive hpc
  | stampLoad f => exact Option.some.inj ((canStep_at hpc).symm.trans h) ▸ .stampLoad f hpc
  | stampStore f now =>
      exact Option.some.inj ((canStep_at hpc).symm.trans h) ▸ .stampStore f now hpc
  | rxClear n f => exact Option.some.inj ((canStep_at hpc).symm.trans h) ▸ .rxClear n f hpc
  | rxLoad n f => exact Option.some.inj ((canStep_at hpc).symm.trans h) ▸ .rxLoad n f hpc
  | rxStore n f v => exact Option.some.inj ((canStep_at hpc).symm.trans h) ▸ .rxStore n f v hpc
  | txClear f => exact Option.some.inj ((canStep_at hpc).symm.trans h) ▸ .txClear f hpc
  | txLoad f => exact Option.some.inj ((canStep_at hpc).symm.trans h) ▸ .txLoad f hpc
  | txStore f v => exact Option.some.inj ((canStep_at hpc).symm.trans h) ▸ .txStore f v hpc
  | rxGive n f => exact Option.some.inj ((canStep_at hpc).symm.trans h) ▸ .rxGive n f hpc
  | txGive => exact Option.some.inj ((canStep_at hpc).symm.trans h) ▸ .txGive hpc

/-! ## The reader -/

/-- The steps of the reader. -/
inductive ReaderMove (s : Sys) : Sys → Prop where
  | take (buf : Nat → Byte) (hpc : s.reader = some (.take buf)) (hsem : 0 < s.rxSem) :
      ReaderMove s { s with rxSem := s.rxSem - 1, reader := some (.stamp buf) }
  | stamp (buf : Nat → Byte) (hpc : s.reader = some (.stamp buf)) :
      ReaderMove s { s with reader := some (.test buf s.lastRxTime) }
  | test (buf : Nat → Byte) (now : Nat) (hpc : s.reader = some (.test buf now)) :
      ReaderMove s { s with reader := some (ReadPc.fromTest buf now s.pendingRxBuf) }
  | load (n : RxBuf) (buf : Nat → Byte) (now : Nat) (hpc : s.reader = some (.load n buf now)) :
      ReaderMove s { s with reader := some (.store n buf now s.pendingRxBuf) }
  | store (n : RxBuf) (buf : Nat → Byte) (now : Nat) (v : Byte) (a : BusAct)
      (k : a.Ans → Driver Received) (hpc : s.reader = some (.store n buf now v))
      (hread : rxRead n buf = .act a k) :
      ReaderMove s { s with
        pendingRxBuf := v &&& ~~~bit n, reader := some (.reading n now a k) }
  | reading (n : RxBuf) (now : Nat) (a : BusAct) (k : a.Ans → Driver Received) (a' : BusAct)
      (k' : a'.Ans → Driver Received) (hpc : s.reader = some (.reading n now a k))
      (hrest : k (a.onRegs s.regs).1 = .act a' k') :
      ReaderMove s { s with
        regs := (a.onRegs s.regs).2, reader := some (.reading n now a' k') }
  | done (n : RxBuf) (now : Nat) (a : BusAct) (k : a.Ans → Driver Received) (x : Received)
      (hpc : s.reader = some (.reading n now a k))
      (hrest : k (a.onRegs s.regs).1 = .ret x) :
      ReaderMove s { s with
        regs := (a.onRegs s.regs).2, reader := none, trace := .returned n x now :: s.trace }

theorem readerStep_at {p : ReadPc} (hpc : s.reader = some p) :
    s.readerStep = (Sys.perform p.act s).map fun rs =>
      match p.next rs.1 with
      | .inl q => { rs.2 with reader := some q }
      | .inr (x, now) =>
          { rs.2 with reader := none, trace := .returned p.buffer x now :: rs.2.trace } := by
  simp only [Sys.readerStep, hpc, Automaton.step, readAutomaton, Option.map_map]
  rfl

/-- A read begins with a transaction. -/
theorem rxRead_act (n : RxBuf) (buf : Nat → Byte) : ∃ a k, rxRead n buf = .act a k := by
  cases n <;> exact ⟨_, _, rfl⟩

theorem readerMove_of_readerStep (h : s.readerStep = some t) : ReaderMove s t := by
  cases hpc : s.reader with
  | none => simp [Sys.readerStep, hpc] at h
  | some p =>
      have hat := (readerStep_at hpc).symm.trans h
      cases p with
      | take buf =>
          -- Without a token there is no step.
          by_cases hsem : 0 < s.rxSem
          · simp only [ReadPc.act, Sys.perform, Sys.take, hsem, if_true, Option.map_some,
              Option.some.injEq] at hat
            exact hat ▸ .take buf hpc hsem
          · simp [ReadPc.act, Sys.perform, Sys.take, hsem] at hat
      | stamp buf => exact Option.some.inj hat ▸ .stamp buf hpc
      | test buf now => exact Option.some.inj hat ▸ .test buf now hpc
      | load n buf now => exact Option.some.inj hat ▸ .load n buf now hpc
      | store n buf now v =>
          rcases rxRead_act n buf with ⟨a, k, hread⟩
          have hnext : ReadPc.next (.store n buf now v) () = .inl (.reading n now a k) := by
            simp only [ReadPc.next, hread, ReadPc.ofRead]
          simp only [ReadPc.act, Sys.perform, Option.map_some, hnext, Option.some.injEq] at hat
          exact hat ▸ .store n buf now v a k hpc hread
      | reading n now a k =>
          cases hrest : k (a.onRegs s.regs).1 with
          | ret x =>
              -- The answer of the transaction decides whether the read goes on.
              have hnext : ReadPc.next (.reading n now a k) (a.onRegs s.regs).1 =
                  .inr (x, now) := by
                simp only [ReadPc.next, hrest, ReadPc.ofRead]
              simp only [ReadPc.act, Sys.perform, Option.map_some, hnext,
                Option.some.injEq] at hat
              exact hat ▸ .done n now a k x hpc hrest
          | act a' k' =>
              have hnext : ReadPc.next (.reading n now a k) (a.onRegs s.regs).1 =
                  .inl (.reading n now a' k') := by
                simp only [ReadPc.next, hrest, ReadPc.ofRead]
              simp only [ReadPc.act, Sys.perform, Option.map_some, hnext,
                Option.some.injEq] at hat
              exact hat ▸ .reading n now a k a' k' hpc hrest

/-! ## The sender -/

/-- The steps of the sender. -/
inductive SenderMove (s : Sys) : Sys → Prop where
  | test (c : SendCall) (hpc : s.sender = some (.test c)) :
      SenderMove s { s with sender := some (SendPc.fromTest c s.pendingTxBuf) }
  | take (c : SendCall) (hpc : s.sender = some (.take c)) (hsem : s.txSem = true) :
      SenderMove s { s with txSem := false, sender := some (.load c) }
  | load (c : SendCall) (hpc : s.sender = some (.load c)) :
      SenderMove s { s with sender := some (.store c s.pendingTxBuf) }
  | store (c : SendCall) (v : Byte) (a : BusAct) (k : a.Ans → Driver Unit)
      (hpc : s.sender = some (.store c v))
      (hsend : txBuffer0Send c.canId c.buf c.len = .act a k) :
      SenderMove s { s with pendingTxBuf := v ||| 0x01#8, sender := some (.sending c a k) }
  | sending (c : SendCall) (a : BusAct) (k : a.Ans → Driver Unit) (a' : BusAct)
      (k' : a'.Ans → Driver Unit) (hpc : s.sender = some (.sending c a k))
      (hrest : k (a.onRegs s.regs).1 = .act a' k') :
      SenderMove s { s with regs := (a.onRegs s.regs).2, sender := some (.sending c a' k') }
  | done (c : SendCall) (a : BusAct) (k : a.Ans → Driver Unit)
      (hpc : s.sender = some (.sending c a k))
      (hrest : k (a.onRegs s.regs).1 = .ret ()) :
      SenderMove s { s with regs := (a.onRegs s.regs).2, sender := none }

theorem senderStep_at {p : SendPc} (hpc : s.sender = some p) :
    s.senderStep = (Sys.perform p.act s).map fun rs =>
      match p.next rs.1 with
      | .inl q => { rs.2 with sender := some q }
      | .inr () => { rs.2 with sender := none } := by
  simp only [Sys.senderStep, hpc, Automaton.step, sendAutomaton, Option.map_map]
  rfl

/-- A send begins with a transaction. -/
theorem txBuffer0Send_act (canId : BitVec 32) (buf : Nat → Byte) (len : Byte) :
    ∃ a k, txBuffer0Send canId buf len = .act a k := by
  by_cases hext : 0x7FF#32 < canId
  · simp only [txBuffer0Send, txBuffer0Id, if_pos hext, writeByte_bind]
    exact ⟨_, _, rfl⟩
  · simp only [txBuffer0Send, txBuffer0Id, if_neg hext, writeByte_bind]
    exact ⟨_, _, rfl⟩

theorem senderMove_of_senderStep (h : s.senderStep = some t) : SenderMove s t := by
  cases hpc : s.sender with
  | none => simp [Sys.senderStep, hpc] at h
  | some p =>
      have hat := (senderStep_at hpc).symm.trans h
      cases p with
      | test c => exact Option.some.inj hat ▸ .test c hpc
      | take c =>
          cases hsem : s.txSem with
          | true =>
              simp only [SendPc.act, Sys.perform, Sys.take, hsem, if_true, Option.map_some,
                Option.some.injEq] at hat
              exact hat ▸ .take c hpc hsem
          | false => simp [SendPc.act, Sys.perform, Sys.take, hsem] at hat
      | load c => exact Option.some.inj hat ▸ .load c hpc
      | store c v =>
          rcases txBuffer0Send_act c.canId c.buf c.len with ⟨a, k, hsend⟩
          have hnext : SendPc.next (.store c v) () = .inl (.sending c a k) := by
            simp only [SendPc.next, hsend, SendPc.ofSend]
          simp only [SendPc.act, Sys.perform, Option.map_some, hnext, Option.some.injEq] at hat
          exact hat ▸ .store c v a k hpc hsend
      | sending c a k =>
          cases hrest : k (a.onRegs s.regs).1 with
          | ret x =>
              -- The last transaction is the request for transmission.
              have hnext : SendPc.next (.sending c a k) (a.onRegs s.regs).1 = .inr () := by
                simp only [SendPc.next, hrest, SendPc.ofSend]
              simp only [SendPc.act, Sys.perform, Option.map_some, hnext,
                Option.some.injEq] at hat
              exact hat ▸ .done c a k hpc hrest
          | act a' k' =>
              have hnext : SendPc.next (.sending c a k) (a.onRegs s.regs).1 =
                  .inl (.sending c a' k') := by
                simp only [SendPc.next, hrest, SendPc.ofSend]
              simp only [SendPc.act, Sys.perform, Option.map_some, hnext,
                Option.some.injEq] at hat
              exact hat ▸ .sending c a k a' k' hpc hrest

/-! ## The start of a call and the interrupt handler -/

theorem Sys.eq_of_receive {buf : Nat → Byte} (h : s.receive buf = some t) :
    s.reader = none ∧ t = { s with reader := some (.take buf) } := by
  cases hreader : s.reader with
  | some p => simp [Sys.receive, hreader] at h
  | none =>
      simp only [Sys.receive, hreader, Option.some.injEq] at h
      exact ⟨rfl, h.symm⟩

theorem Sys.eq_of_submit {c : SendCall} (h : s.submit c = some t) :
    s.sender = none ∧
      t = { s with sender := some (.test c), trace := .submitted c :: s.trace } := by
  cases hsender : s.sender with
  | some p => simp [Sys.submit, hsender] at h
  | none =>
      simp only [Sys.submit, hsender, Option.some.injEq] at h
      exact ⟨rfl, h.symm⟩

theorem Sys.eq_of_irqHandler {now : Nat} (h : s.irqHandler now = some t) :
    s.edge = true ∧ t = { s with edge := false, lastIntTime := now, intSem := true } := by
  cases hedge : s.edge with
  | false => simp [Sys.irqHandler, hedge] at h
  | true =>
      simp only [Sys.irqHandler, hedge, if_true, Option.some.injEq] at h
      exact ⟨rfl, h.symm⟩

end Mcp2515Task
end PicoCppSdk
