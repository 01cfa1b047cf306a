import PicoCppSdk.Mcp2515Task.Transmit

/-!
# Progress — no sender waits for a token that nobody will give

A send that finds bit 0 of `_pendingTxBuf` set waits for `_txSemaphore`.  The token may have gone to
an earlier send, completions may merge into one `TX0IF`, and the error branch gives for errors that
have nothing to do with the transmission.  What remains through all of this is that a token is owed:
a request is in TXB0, its completion is in `CANINTF`, `canService` is on its way to a give, or the
token is there.

A send ends by setting `TXREQ`, so a token is owed whenever the next one begins; and only the take
of a token ends it.
-/

namespace PicoCppSdk
namespace Mcp2515Task

open Atomic Mcp2515 Transition

variable {s t : Sys}

/-! ## A token that is owed -/

namespace RunPc

/-- Between the read of a `CANINTF` that shows `TX0IF` or an error and the give for it. -/
def answering : RunPc → Bool
  | .stampLoad f => f.getLsbD 2
  | .stampStore f _ => f.getLsbD 2
  | .rxClear _ f => f.getLsbD 2
  | .rxLoad _ f => f.getLsbD 2
  | .rxStore _ f _ => f.getLsbD 2
  | .txClear f => f.getLsbD 2
  | .txLoad f => f.getLsbD 2
  | .txStore f _ => f.getLsbD 2
  | .rxGive _ f => f.getLsbD 2
  | .txGive => true
  | p => p.inError

/-- Inside `if (intFlag & TX0IF)` the flag has been read. -/
def SawFlag : RunPc → Prop
  | .txClear f => f.getLsbD 2 = true
  | .txLoad f => f.getLsbD 2 = true
  | .txStore f _ => f.getLsbD 2 = true
  | _ => True

end RunPc

/-! ## What `canService` does to it -/

theorem CanMove.sawFlag (h : CanMove s t) (hs : s.can.SawFlag) : t.can.SawFlag := by
  have htx : ∀ f : Byte, f &&& TX0IF ≠ 0#8 → (RunPc.txClear f).SawFlag := fun f => (and_bit2 f).1
  cases h with
  | readIntf hpc =>
      dsimp only
      rw [RunPc.goto_fromIntf]
      split
      · -- The error branch looks at no `TX0IF`.
        trivial
      · exact RunPc.goto_fromStamp_of trivial (fun _ _ => trivial) (htx _) (fun _ _ => trivial)
          trivial trivial
  | clearErr eflg hpc =>
      dsimp only
      split <;> trivial
  | stampStore f now hpc =>
      exact RunPc.goto_fromRx0_of (fun _ _ => trivial) (htx f) (fun _ _ => trivial) trivial trivial
  | rxStore n f v hpc =>
      exact RunPc.goto_afterRx_of n (fun _ _ => trivial) (htx f) (fun _ _ => trivial) trivial
        trivial
  | txClear f hpc =>
      rw [hpc] at hs
      exact hs
  | txLoad f hpc =>
      rw [hpc] at hs
      exact hs
  | txStore f v hpc =>
      exact RunPc.goto_fromGive0_of (fun _ _ => trivial) trivial trivial
  | rxGive n f hpc =>
      exact RunPc.goto_afterGive_of n (fun _ _ => trivial) trivial trivial
  | _ => trivial

/-- On its way to the give `canService` stays on it until it gives. -/
theorem CanMove.answering (h : CanMove s t) (hs : s.can.answering = true) :
    t.can.answering = true ∨ t.txSem = true := by
  cases h with
  | readEflg hpc => exact Or.inl rfl
  | clearErr eflg hpc =>
      dsimp only
      split <;> exact Or.inl rfl
  | reqConfig hpc => exact Or.inl rfl
  | settle hpc => exact Or.inl rfl
  | reqNormal hpc => exact Or.inl rfl
  | errLoad hpc => exact Or.inl rfl
  | errStore v hpc => exact Or.inl rfl
  | errGive hpc => exact Or.inr rfl
  -- In the normal branch the flag that has been read decides where `run` goes.
  | stampLoad f hpc =>
      rw [hpc] at hs
      exact Or.inl hs
  | stampStore f now hpc =>
      rw [hpc] at hs
      exact Or.inl (RunPc.goto_fromRx0_of_tx (P := fun p => p.answering = true)
        ((and_bit2 f).2 hs) (fun _ => hs) hs)
  | rxClear n f hpc =>
      rw [hpc] at hs
      exact Or.inl hs
  | rxLoad n f hpc =>
      rw [hpc] at hs
      exact Or.inl hs
  | rxStore n f v hpc =>
      rw [hpc] at hs
      exact Or.inl (RunPc.goto_afterRx_of_tx (P := fun p => p.answering = true)
        ((and_bit2 f).2 hs) n hs hs)
  | txClear f hpc =>
      rw [hpc] at hs
      exact Or.inl hs
  | txLoad f hpc =>
      rw [hpc] at hs
      exact Or.inl hs
  | txStore f v hpc =>
      rw [hpc] at hs
      exact Or.inl (RunPc.goto_fromGive0_of_tx (P := fun p => p.answering = true)
        ((and_bit2 f).2 hs) (fun _ => hs) rfl)
  | rxGive n f hpc =>
      rw [hpc] at hs
      exact Or.inl (RunPc.goto_afterGive_of_tx (P := fun p => p.answering = true)
        ((and_bit2 f).2 hs) n (fun _ => hs) rfl)
  | txGive hpc => exact Or.inr rfl
  -- Outside the branches nothing has been read yet.
  | _ hpc =>
      rw [hpc] at hs
      cases hs

/-- A completion leaves `CANINTF` only when `canService` is on its way to the give. -/
theorem CanMove.completion (h : CanMove s t) (hsaw : s.can.SawFlag)
    (hs : (s.regs CANINTF).getLsbD 2 = true) :
    (t.regs CANINTF).getLsbD 2 = true ∨ t.can.answering = true := by
  have hclear : ∀ m : Byte, m.getLsbD 2 = false →
      ((s.regs.modify CANINTF m 0#8) CANINTF).getLsbD 2 = true := by
    intro m hm
    rw [Regs.modify_self, getLsbD_clear, hs, hm]
    rfl
  have hctrl : ∀ d : Byte, ((s.regs.write CANCTRL d) CANINTF).getLsbD 2 = true := by
    intro d
    have hkeep : (s.regs.write CANCTRL d) CANINTF = s.regs CANINTF :=
      Regs.write_of_ne (by decide) _ _
    rw [hkeep]
    exact hs
  cases h with
  | clearErr eflg hpc => exact Or.inl (hclear _ rfl)
  | rxClear n f hpc => exact Or.inl (hclear _ (getLsbD_rxFlag n (Nat.le_refl 2)))
  | txClear f hpc =>
      -- The debt goes from the flag to `canService`.
      rw [hpc] at hsaw
      exact Or.inr hsaw
  | reqConfig hpc => exact Or.inl (hctrl REQOP_CONFIG)
  | reqNormal hpc => exact Or.inl (hctrl (REQOP_NORMAL ||| CLKOUT_ENABLED))
  | _ => exact Or.inl hs

theorem CanMove.txSem (h : CanMove s t) (hs : s.txSem = true) : t.txSem = true := by
  cases h with
  | errGive hpc => rfl
  | txGive hpc => rfl
  | _ => exact hs

/-- `canService` never sets bit 0 of `_pendingTxBuf`. -/
theorem CanMove.bit (h : CanMove s t) (ht : t.pendingTxBuf.getLsbD 0 = true) :
    s.pendingTxBuf.getLsbD 0 = true := by
  cases h with
  | errStore v hpc => simp at ht
  | txStore f v hpc => simp at ht
  | _ => exact ht

theorem ReaderMove.txSem (h : ReaderMove s t) : t.txSem = s.txSem := by
  cases h <;> rfl

namespace Sys

/-- The sender is blocked on `_txSemaphore`, and neither the controller nor `canService` will give
it. -/
structure Stuck (s : Sys) : Prop where
  blocked : ∃ c, s.sender = some (.take c)
  empty : s.txSem = false
  noRequest : s.regs TXB0CTRL &&& TXREQ = 0#8
  noCompletion : s.regs CANINTF &&& TX0IF = 0#8
  idle : s.can.answering = false

/-- A token is there or will be given. -/
def Owed (s : Sys) : Prop :=
  (s.regs TXB0CTRL).getLsbD 3 = true ∨ (s.regs CANINTF).getLsbD 2 = true ∨
    s.can.answering = true ∨ s.txSem = true

theorem Owed.not_stuck (h : s.Owed) : ¬ s.Stuck := by
  intro hstuck
  rcases h with hreq | hflag | hcan | hsem
  · exact (and_bit3 _).2 hreq hstuck.noRequest
  · exact (and_bit2 _).2 hflag hstuck.noCompletion
  · exact absurd (hcan.symm.trans hstuck.idle) (by decide)
  · exact absurd (hsem.symm.trans hstuck.empty) (by decide)

/-- `canService` passes the debt on until it gives. -/
theorem Owed.can (h : s.Owed) (hm : CanMove s t) (hsaw : s.can.SawFlag) : t.Owed := by
  rcases h with hreq | hflag | hcan | hsem
  · -- `canService` does not write `TXB0CTRL`.
    rw [← hm.frame.2.2.2 TXB0CTRL (by decide) (by decide)] at hreq
    exact Or.inl hreq
  · rcases hm.completion hsaw hflag with hflag | hcan
    · exact Or.inr (Or.inl hflag)
    · exact Or.inr (Or.inr (Or.inl hcan))
  · rcases hm.answering hcan with hcan | hsem
    · exact Or.inr (Or.inr (Or.inl hcan))
    · exact Or.inr (Or.inr (Or.inr hsem))
  · exact Or.inr (Or.inr (Or.inr (hm.txSem hsem)))

/-- What leaves `canService` and the token alone may only pass the debt from `TXB0CTRL` on to
`CANINTF`. -/
theorem Owed.of_regs (h : s.Owed)
    (hreq : (s.regs TXB0CTRL).getLsbD 3 = true →
      (t.regs TXB0CTRL).getLsbD 3 = true ∨ (t.regs CANINTF).getLsbD 2 = true)
    (hflag : (s.regs CANINTF).getLsbD 2 = true → (t.regs CANINTF).getLsbD 2 = true)
    (hcan : t.can = s.can) (hsem : t.txSem = s.txSem) : t.Owed := by
  rcases h with h | h | h | h
  · rcases hreq h with h' | h'
    · exact Or.inl h'
    · exact Or.inr (Or.inl h')
  · exact Or.inr (Or.inl (hflag h))
  · exact Or.inr (Or.inr (Or.inl (hcan ▸ h)))
  · exact Or.inr (Or.inr (Or.inr (hsem.trans h)))

theorem Owed.congr (h : s.Owed) (hregs : t.regs = s.regs) (hcan : t.can = s.can)
    (hsem : t.txSem = s.txSem) : t.Owed :=
  h.of_regs (fun hset => Or.inl (hregs ▸ hset)) (fun hset => hregs ▸ hset) hcan hsem

/-! ## The invariant -/

/-- Before the gate a token is owed, if bit 0 of `_pendingTxBuf` is set or the sender waits. -/
structure TxOwed (s : Sys) : Prop where
  saw : s.can.SawFlag
  owed : s.sender.any SendPc.pastGate = false →
    s.pendingTxBuf.getLsbD 0 = true ∨ s.sender.any SendPc.waits = true → s.Owed

namespace TxOwed

theorem not_stuck (h : s.TxOwed) : ¬ s.Stuck := by
  intro hstuck
  rcases hstuck.blocked with ⟨c, hc⟩
  have howed : s.Owed := by
    apply h.owed
    · rw [hc]
      rfl
    · rw [hc]
      exact Or.inr rfl
  exact howed.not_stuck hstuck

/-- A step of the controller, or of a party that leaves the send side alone. -/
theorem of_owed (h : s.TxOwed) (hcan : t.can = s.can) (hsender : t.sender = s.sender)
    (hmask : t.pendingTxBuf = s.pendingTxBuf) (howed : s.Owed → t.Owed) : t.TxOwed where
  saw := hcan ▸ h.saw
  owed hgate hwait := by
    rw [hsender] at hgate hwait
    rw [hmask] at hwait
    exact howed (h.owed hgate hwait)

theorem congr (h : s.TxOwed) (hcan : t.can = s.can) (hsender : t.sender = s.sender)
    (hmask : t.pendingTxBuf = s.pendingTxBuf) (hregs : t.regs = s.regs)
    (hsem : t.txSem = s.txSem) : t.TxOwed :=
  h.of_owed hcan hsender hmask fun howed => howed.congr hregs hcan hsem

theorem can (h : s.TxOwed) (hm : CanMove s t) : t.TxOwed := by
  rcases hm.frame with ⟨-, hsender, -, -⟩
  refine ⟨hm.sawFlag h.saw, ?_⟩
  intro hgate hwait
  rw [hsender] at hgate hwait
  have howed : s.Owed := by
    apply h.owed hgate
    rcases hwait with hbit | hwait
    · exact Or.inl (hm.bit hbit)
    · exact Or.inr hwait
  exact howed.can hm h.saw

theorem reader (h : s.TxOwed) (hreads : s.ReaderReads) (hm : ReaderMove s t) : t.TxOwed := by
  rcases hm.frame with ⟨hcan, hsender, hmask, -⟩
  exact h.congr hcan hsender hmask (hm.regs hreads) hm.txSem

/-- The sender comes before the gate with a request set, and waits only if it finds the mark. -/
theorem sender (h : s.TxOwed) (hrem : s.SenderRemaining) (hm : SenderMove s t) : t.TxOwed := by
  refine ⟨hm.frame.1 ▸ h.saw, ?_⟩
  cases hm with
  | test c hpc =>
      intro hgate _
      by_cases hbit : s.pendingTxBuf &&& 0x01#8 ≠ 0#8
      · -- The mark that makes the sender wait stands for a debt.
        have howed : s.Owed := by
          apply h.owed
          · rw [hpc]
            rfl
          · exact Or.inl ((and_bit0 _).1 hbit)
        exact howed.congr rfl rfl rfl
      · -- Without the mark the sender is past the gate.
        have hgo : SendPc.fromTest c s.pendingTxBuf = .load c := if_neg hbit
        change (some (SendPc.fromTest c s.pendingTxBuf)).any SendPc.pastGate = false at hgate
        rw [hgo] at hgate
        cases hgate
  -- From the gate on nothing is claimed until the request.
  | take c hpc hsem =>
      intro hgate _
      cases hgate
  | load c hpc =>
      intro hgate _
      cases hgate
  | store c v a k hpc hsend =>
      intro hgate _
      cases hgate
  | sending c a k a' k' hpc hrest =>
      intro hgate _
      cases hgate
  | done c a k hpc hrest =>
      -- The last write of a send is the request.
      intro _ _
      have hlast := (hrem c a k hpc).last hrest
      subst hlast
      refine Or.inl ?_
      change ((s.regs.write TXB0CTRL 0x08#8) TXB0CTRL).getLsbD 3 = true
      rw [Regs.write_self]
      rfl

theorem submit (h : s.TxOwed) {c : SendCall} (hm : s.submit c = some t) : t.TxOwed := by
  rcases eq_of_submit hm with ⟨hsender, rfl⟩
  refine ⟨h.saw, ?_⟩
  rintro _ (hbit | hwait)
  · -- Between two calls the sender counts as before the gate.
    have howed : s.Owed := by
      apply h.owed
      · rw [hsender]
        rfl
      · exact Or.inl hbit
    exact howed.congr rfl rfl rfl
  · cases hwait

theorem arrive (h : s.TxOwed) (img : RxImage) : (s.arrive img).TxOwed := by
  rcases s.arrive_frame img with ⟨hcan, -, hsender, hmask, hsem⟩
  refine h.of_owed hcan hsender hmask ?_
  intro howed
  refine howed.of_regs ?_ ?_ hcan hsem
  · intro hset
    exact Or.inl (s.arrive_txb0ctrl img ▸ hset)
  · intro hset
    rw [s.arrive_intf, hset]
    rfl

/-- A completion takes the request out of TXB0 and puts it into `CANINTF`, where it may already find
another one. -/
theorem complete (h : s.TxOwed) (hm : s.complete = some t) : t.TxOwed := by
  have hc := completed_of_complete hm
  rcases hc.parties with ⟨hcan, -, hsender⟩
  refine h.of_owed hcan hsender hc.masks.2 ?_
  intro howed
  exact howed.of_regs (fun _ => Or.inr hc.flag) (fun _ => hc.flag) hcan hc.semaphores.2

theorem raise (h : s.TxOwed) (flags eflg : Byte) : (s.raise flags eflg).TxOwed := by
  refine h.of_owed rfl rfl rfl ?_
  intro howed
  refine howed.of_regs ?_ ?_ rfl rfl
  · intro hset
    exact Or.inl (s.raise_txb0ctrl flags eflg ▸ hset)
  · intro hset
    rw [s.raise_intf, hset]
    rfl

theorem step {l : Label} (h : s.TxOwed) (hcalls : s.InCalls) (hstep : Sys.step l s = some t) :
    t.TxOwed := by
  rcases Option.map_eq_some_iff.1 hstep with ⟨u, hmove, rfl⟩
  have hu : u.TxOwed := by
    cases l with
    | canService => exact h.can (canMove_of_canStep hmove)
    | reader => exact h.reader hcalls.reads (readerMove_of_readerStep hmove)
    | sender => exact h.sender hcalls.remaining (senderMove_of_senderStep hmove)
    | receive buf =>
        rcases eq_of_receive hmove with ⟨-, rfl⟩
        exact h.congr rfl rfl rfl rfl rfl
    | submit c => exact h.submit hmove
    | irqHandler now =>
        rcases eq_of_irqHandler hmove with ⟨-, rfl⟩
        exact h.congr rfl rfl rfl rfl rfl
    | arrive img => exact Option.some.inj hmove ▸ h.arrive img
    | complete => exact h.complete hmove
    | raise flags eflg => exact Option.some.inj hmove ▸ h.raise flags eflg
  exact hu.congr rfl rfl rfl rfl rfl

theorem boot (r : Regs) : (Sys.boot r).TxOwed := by
  refine ⟨trivial, ?_⟩
  rintro _ (hbit | hwait)
  · have hclear : (Sys.boot r).pendingTxBuf.getLsbD 0 = false := BitVec.getLsbD_zero
    exact absurd (hbit.symm.trans hclear) (by decide)
  · cases hwait

end TxOwed

end Sys

/-! ## Runs -/

/-- A sender is never stuck for ever, for any payloads, errors and interleaving. -/
theorem never_stuck {r : Regs} {ls : List Label} {t : Sys}
    (h : Run Sys.step Free (Sys.boot r) ls t) : ¬ t.Stuck := by
  have hinv : t.InCalls ∧ t.TxOwed := by
    refine h.invariant (I := fun s => s.InCalls ∧ s.TxOwed) ?_
      ⟨Sys.InCalls.boot r, Sys.TxOwed.boot r⟩
    rintro s l u ⟨hcalls, howed⟩ _ hstep
    exact ⟨hcalls.step hstep, howed.step hcalls hstep⟩
  exact hinv.2.not_stuck

/-- The second send waits while `canService` clears the flag and the mark: a token is still owed. -/
theorem never_stuck_between :
    ∃ t : Sys, (t.sender.any SendPc.waits = true ∧ t.pendingTxBuf = 0#8 ∧
      t.txSem = false) ∧ ¬ t.Stuck := by
  rcases exists_run_of_exec Sys.step Free (Sys.boot fun _ => 0#8)
    (List.flatten
      [[.canService, .submit (emptyCall 1#32)], List.replicate 7 .sender,
        [.submit (emptyCall 2#32), .sender, .complete], List.replicate 5 .canService])
    (fun t => t.sender.any SendPc.waits = true ∧ t.pendingTxBuf = 0#8 ∧ t.txSem = false)
    (by decide +kernel) with ⟨t, hrun, hwaits⟩
  exact ⟨t, of_decide_eq_true hwaits, never_stuck hrun⟩

end Mcp2515Task
end PicoCppSdk
