import PicoCppSdk.Mcp2515Task.Progress

/-!
# Pending — the mark of a transmission under way

Bit 0 of `_pendingTxBuf` is set by a send and cleared by `canService`, for `TX0IF` and for every
error or wake-up.  Neither says that the frame in TXB0 is gone: a message error leaves `TXREQ` set
while the controller tries again, an overflow concerns reception only, and the `TX0IF` that is read
may belong to the frame before.

The mark survives if `canService` turns to such a flag only between two transmissions, and no send
marks TXB0 while `canService` is on its way to clear the mark.
-/

namespace PicoCppSdk
namespace Mcp2515Task

open Atomic Mcp2515 Transition

variable {s t : Sys}

/-- A value of `CANINTF` for which `canService` clears bit 0 of `_pendingTxBuf`. -/
def ClearsMark (f : Byte) : Prop :=
  f &&& (MERRF ||| WAKIF ||| ERRIF) ≠ 0#8 ∨ f &&& TX0IF ≠ 0#8

instance (f : Byte) : Decidable (ClearsMark f) :=
  inferInstanceAs (Decidable (_ ∨ _))

/-- About to mark TXB0. -/
def SendPc.marks : SendPc → Bool
  | .store _ _ => true
  | _ => false

namespace RunPc

/-- Between the read of such a value and the store that clears the mark. -/
def willClear : RunPc → Bool
  | .readEflg => true
  | .clearErr _ => true
  | .reqConfig => true
  | .settle => true
  | .reqNormal => true
  | .errLoad => true
  | .errStore _ => true
  | .txLoad _ => true
  | .txStore _ _ => true
  | p => p.sawTx

/-- A bound of the steps to the store. -/
def toStore : RunPc → Nat
  | .readEflg => 7
  | .clearErr _ => 6
  | .reqConfig => 5
  | .settle => 4
  | .reqNormal => 3
  | .errLoad => 2
  | .errStore _ => 1
  | .stampLoad _ => 11
  | .stampStore _ _ => 10
  | .rxClear .b0 _ => 9
  | .rxLoad .b0 _ => 8
  | .rxStore .b0 _ _ => 7
  | .rxClear .b1 _ => 6
  | .rxLoad .b1 _ => 5
  | .rxStore .b1 _ _ => 4
  | .txClear _ => 3
  | .txLoad _ => 2
  | .txStore _ _ => 1
  | _ => 0

/-- On the way to the store, with fewer than `n` steps to go. -/
def Nears (n : Nat) (p : RunPc) : Prop :=
  p.willClear = true ∧ p.toStore < n

/-- From a plain point of the normal branch the way leads over a `TX0IF` that has been read. -/
theorem Plain.sawTx_of_willClear {saw : Bool} {p : RunPc} (h : Plain saw p)
    (hp : p.willClear = true) : saw = true := by
  have hclearing := h.clearing
  have herror := h.inError
  -- Every other point of the way is in the error branch or behind the clear of the flag.
  cases p with
  | readEflg => cases herror
  | clearErr eflg => cases herror
  | reqConfig => cases herror
  | settle => cases herror
  | reqNormal => cases herror
  | errLoad => cases herror
  | errStore v => cases herror
  | txLoad f => cases hclearing
  | txStore f v => cases hclearing
  | _ => exact h.sawTx hp

theorem willClear_fromIntf {f : Byte} (hf : ClearsMark f) :
    (goto (fromIntf f)).willClear = true := by
  rw [goto_fromIntf]
  split
  · rfl
  · -- The normal branch: the value asks for the store by its `TX0IF`.
    rename_i herr
    have htx : f &&& TX0IF ≠ 0#8 := hf.resolve_left herr
    have hset : f.getLsbD 2 = true := (and_bit2 f).1 htx
    exact goto_fromStamp_of_tx (P := fun p => p.willClear = true) htx hset (fun _ => hset) rfl

end RunPc

/-! ## What `canService` does to the mark -/

/-- `canService` comes onto the way to the store only by the read of a value that asks for it. -/
theorem CanMove.willClear (h : CanMove s t) (ht : t.can.willClear = true) :
    s.can.willClear = true ∨ (s.can = .readIntf ∧ ClearsMark (s.regs CANINTF)) := by
  cases h with
  | readIntf hpc =>
      refine Or.inr ⟨hpc, ?_⟩
      dsimp only at ht
      rw [RunPc.goto_fromIntf] at ht
      split at ht
      · rename_i herr
        exact Or.inl herr
      · exact Or.inr ((and_bit2 _).2 ((RunPc.plain_fromStamp _).sawTx_of_willClear ht))
  | stampLoad f hpc =>
      rw [hpc]
      exact Or.inl ht
  | stampStore f now hpc =>
      rw [hpc]
      exact Or.inl ((RunPc.plain_fromRx0 f).sawTx_of_willClear ht)
  | rxClear n f hpc =>
      rw [hpc]
      exact Or.inl ht
  | rxLoad n f hpc =>
      rw [hpc]
      exact Or.inl ht
  | rxStore n f v hpc =>
      rw [hpc]
      exact Or.inl ((RunPc.plain_afterRx n f).sawTx_of_willClear ht)
  | txStore f v hpc =>
      exact absurd ((RunPc.plain_fromGive0 f).sawTx_of_willClear ht) (by decide)
  | rxGive n f hpc =>
      exact absurd ((RunPc.plain_afterGive n f).sawTx_of_willClear ht) (by decide)
  | clearErr eflg hpc =>
      rw [hpc]
      exact Or.inl rfl
  | errStore v hpc =>
      rw [hpc]
      exact Or.inl rfl
  | txClear f hpc =>
      rw [hpc]
      exact Or.inl rfl
  | txLoad f hpc =>
      rw [hpc]
      exact Or.inl rfl
  -- These lead to a point outside the way.
  | awaitDone hpc => cases ht
  | awaitMore hpc => cases ht
  | awaitDelay hpc => cases ht
  | pollHigh hpc hint => cases ht
  | pollLow hpc hint => cases ht
  | block hpc hsem => cases ht
  | errGive hpc => cases ht
  | txGive hpc => cases ht
  | _ hpc =>
      rw [hpc]
      exact Or.inl rfl

/-- The mark is cleared only at the end of the way. -/
theorem CanMove.mark (h : CanMove s t) :
    t.pendingTxBuf = s.pendingTxBuf ∨ s.can.willClear = true := by
  cases h with
  | errStore v hpc => exact Or.inr (by rw [hpc]; rfl)
  | txStore f v hpc => exact Or.inr (by rw [hpc]; rfl)
  | _ => exact Or.inl rfl

/-- On its way `canService` comes nearer to the store, or clears the mark. -/
theorem CanMove.nears (h : CanMove s t) (hs : s.can.willClear = true) :
    t.can.Nears s.can.toStore ∨ t.pendingTxBuf.getLsbD 0 = false := by
  cases h with
  | readEflg hpc =>
      rw [hpc]
      exact Or.inl ⟨rfl, Nat.lt_succ_self 6⟩
  | clearErr eflg hpc =>
      rw [hpc]
      dsimp only
      split
      · exact Or.inl ⟨rfl, Nat.lt_succ_self 5⟩
      · -- Without a bus-off the restart of the controller is left out.
        exact Or.inl ⟨rfl, Nat.le_of_ble_eq_true rfl⟩
  | reqConfig hpc =>
      rw [hpc]
      exact Or.inl ⟨rfl, Nat.lt_succ_self 4⟩
  | settle hpc =>
      rw [hpc]
      exact Or.inl ⟨rfl, Nat.lt_succ_self 3⟩
  | reqNormal hpc =>
      rw [hpc]
      exact Or.inl ⟨rfl, Nat.lt_succ_self 2⟩
  | errLoad hpc =>
      rw [hpc]
      exact Or.inl ⟨rfl, Nat.lt_succ_self 1⟩
  | errStore v hpc => exact Or.inr (by simp)
  | stampLoad f hpc =>
      rw [hpc] at hs ⊢
      exact Or.inl ⟨hs, Nat.lt_succ_self 10⟩
  | stampStore f now hpc =>
      rw [hpc] at hs ⊢
      -- `TX0IF` is set in `f`: past the receive buffers the way leads to TXB0.
      have hrx : ∀ n, (RunPc.rxClear n f).Nears 10 := by
        intro n
        cases n with
        | b0 => exact ⟨hs, Nat.lt_succ_self 9⟩
        | b1 => exact ⟨hs, Nat.le_of_ble_eq_true rfl⟩
      exact Or.inl (RunPc.goto_fromRx0_of_tx (P := RunPc.Nears 10) ((and_bit2 f).2 hs) hrx
        ⟨rfl, Nat.le_of_ble_eq_true rfl⟩)
  | rxClear n f hpc =>
      rw [hpc] at hs ⊢
      cases n with
      | b0 => exact Or.inl ⟨hs, Nat.lt_succ_self 8⟩
      | b1 => exact Or.inl ⟨hs, Nat.lt_succ_self 5⟩
  | rxLoad n f hpc =>
      rw [hpc] at hs ⊢
      cases n with
      | b0 => exact Or.inl ⟨hs, Nat.lt_succ_self 7⟩
      | b1 => exact Or.inl ⟨hs, Nat.lt_succ_self 4⟩
  | rxStore n f v hpc =>
      rw [hpc] at hs ⊢
      cases n with
      | b0 =>
          exact Or.inl (RunPc.goto_fromRx1_of_tx (P := RunPc.Nears 7) ((and_bit2 f).2 hs)
            ⟨hs, Nat.lt_succ_self 6⟩ ⟨rfl, Nat.le_of_ble_eq_true rfl⟩)
      | b1 =>
          exact Or.inl (RunPc.goto_fromTx_of_tx (P := RunPc.Nears 4) ((and_bit2 f).2 hs)
            ⟨rfl, Nat.lt_succ_self 3⟩)
  | txClear f hpc =>
      rw [hpc]
      exact Or.inl ⟨rfl, Nat.lt_succ_self 2⟩
  | txLoad f hpc =>
      rw [hpc]
      exact Or.inl ⟨rfl, Nat.lt_succ_self 1⟩
  | txStore f v hpc => exact Or.inr (by simp)
  | rxGive n f hpc =>
      rw [hpc] at hs
      cases hs
  | _ hpc =>
      rw [hpc] at hs
      cases hs

/-- The mark is set before the first transaction of a call. -/
theorem SenderMove.writing (h : SenderMove s t) (hs : s.sender.any SendPc.marks = true) :
    t.sender.any SendPc.writing = true := by
  cases h with
  | store c v a k hpc hsend => rfl
  | test c hpc =>
      rw [hpc] at hs
      cases hs
  | take c hpc hsem =>
      rw [hpc] at hs
      cases hs
  | load c hpc =>
      rw [hpc] at hs
      cases hs
  | sending c a k a' k' hpc hrest =>
      rw [hpc] at hs
      cases hs
  | done c a k hpc hrest =>
      rw [hpc] at hs
      cases hs

/-! ## How a mark is lost -/

namespace Sys

/-- Whenever the transmission of TXB0 is requested, bit 0 of `_pendingTxBuf` is set. -/
def PendingMarked (s : Sys) : Prop :=
  s.regs TXB0CTRL &&& TXREQ ≠ 0#8 → s.pendingTxBuf &&& 0x01#8 ≠ 0#8

instance (s : Sys) : Decidable s.PendingMarked :=
  inferInstanceAs (Decidable (_ → _))

/-- A transmission is requested, or a call is about to request it. -/
def UnderWay (s : Sys) : Prop :=
  s.regs TXB0CTRL &&& TXREQ ≠ 0#8 ∨ s.sender.any SendPc.writing = true

instance (s : Sys) : Decidable s.UnderWay :=
  inferInstanceAs (Decidable (_ ∨ _))

/-- On its way `canService` never waits. -/
theorem exists_canStep (h : s.can.willClear = true) : ∃ t, Sys.step .canService s = some t := by
  have hperform : ∃ x, Sys.perform s.can.act s = some x := by
    cases hpc : s.can with
    | block =>
        rw [hpc] at h
        cases h
    | _ => exact ⟨_, rfl⟩
  -- Only a take can fail to be performed.
  rcases hperform with ⟨x, hx⟩
  have hcan : s.canStep = some { x.2 with can := RunPc.goto (s.can.next x.1) } := by
    rw [canStep_at rfl, hx]
    rfl
  exact ⟨_, congrArg (Option.map s.latch) hcan⟩

/-- `canService` comes to the store while the sender rests. -/
theorem exists_cleared (n : Nat) : ∀ {s : Sys}, s.can.Nears n →
    ∃ t, Reachable Sys.step s t ∧ t.sender = s.sender ∧ t.regs TXB0CTRL = s.regs TXB0CTRL ∧
      t.pendingTxBuf.getLsbD 0 = false := by
  induction n with
  | zero =>
      intro s h
      exact absurd h.2 (Nat.not_lt_zero _)
  | succ n ih =>
      -- One step of `canService`, and the rest of the way from there.
      intro s h
      rcases exists_canStep h.1 with ⟨t, hstep⟩
      rcases Option.map_eq_some_iff.1 hstep with ⟨u, hmove, rfl⟩
      have hm := canMove_of_canStep hmove
      have hframe := hm.frame
      have hctrl : (s.latch u).regs TXB0CTRL = s.regs TXB0CTRL :=
        hframe.2.2.2 TXB0CTRL (by decide) (by decide)
      have hreach : Reachable Sys.step s (s.latch u) := .single hstep
      rcases hm.nears h.1 with hnear | hclear
      · have hle : s.can.toStore ≤ n := Nat.le_of_lt_succ h.2
        rcases ih (s := s.latch u) ⟨hnear.1, Nat.lt_of_lt_of_le hnear.2 hle⟩ with
          ⟨v, hv, hsender, hreq, hbit⟩
        exact ⟨v, hreach.trans hv, hsender.trans hframe.2.1, hreq.trans hctrl, hbit⟩
      · exact ⟨s.latch u, hreach, hframe.2.1, hctrl, hclear⟩

/-- A call inside `txBuffer0Send` comes to its request while `canService` rests. -/
theorem exists_requested {c : SendCall} (rest : List (Byte × Byte)) :
    ∀ {s : Sys} {a : BusAct} {k : a.Ans → Driver Unit}, s.sender = some (.sending c a k) →
      Prog.act a k = ofWrites (rest ++ [(TXB0CTRL, 0x08#8)]) →
        ∃ t, Reachable Sys.step s t ∧ t.regs TXB0CTRL &&& TXREQ ≠ 0#8 ∧
          t.pendingTxBuf = s.pendingTxBuf := by
  induction rest with
  | nil =>
      -- Only the request is left.
      intro s a k hpc hact
      cases hact
      have hstep : Sys.step .sender s = some (s.latch
          { s with regs := s.regs.write TXB0CTRL 0x08#8, sender := none }) :=
        congrArg (Option.map s.latch) (senderStep_at hpc)
      refine ⟨_, .single hstep, ?_, rfl⟩
      change (s.regs.write TXB0CTRL 0x08#8) TXB0CTRL &&& TXREQ ≠ 0#8
      rw [Regs.write_self]
      decide
  | cons w rest ih =>
      intro s a k hpc hact
      rcases exists_ofWrites_append rest (TXB0CTRL, 0x08#8) with ⟨a', k', hmore⟩
      rw [List.cons_append, ofWrites_cons, hmore] at hact
      cases hact
      have hstep : Sys.step .sender s = some (s.latch
          { s with regs := s.regs.write w.1 w.2, sender := some (.sending c a' k') }) :=
        congrArg (Option.map s.latch) (senderStep_at hpc)
      rcases ih (s := s.latch { s with
        regs := s.regs.write w.1 w.2, sender := some (.sending c a' k') }) rfl hmore.symm with
        ⟨t, ht, hreq, hmask⟩
      exact ⟨t, (Reachable.single hstep).trans ht, hreq, hmask⟩

/-- While a transmission is under way and `canService` is on its way to clear the mark, the mark can
be lost. -/
theorem exists_unmarked (hunder : s.UnderWay) (hrem : s.SenderRemaining)
    (hcan : s.can.willClear = true) : ∃ t, Reachable Sys.step s t ∧ ¬ t.PendingMarked := by
  rcases exists_cleared (s.can.toStore + 1) ⟨hcan, Nat.lt_succ_self _⟩ with
    ⟨t, ht, hsender, hctrl, hbit⟩
  have hclear : ¬ t.pendingTxBuf &&& 0x01#8 ≠ 0#8 := by
    intro hne
    exact absurd (((and_bit0 _).1 hne).symm.trans hbit) (by decide)
  rcases hunder with hreq | hwriting
  · -- The request that was there is still there.
    refine ⟨t, ht, ?_⟩
    intro hmarked
    exact hclear (hmarked (hctrl.symm ▸ hreq))
  · -- The call goes on to its request, with the mark gone.
    rcases (Option.any_eq_true _ _).1 hwriting with ⟨p, hp, hpw⟩
    cases p with
    | sending c a k =>
        rcases hrem c a k hp with ⟨rest, -, hact⟩
        rcases exists_requested rest (hsender.trans hp) hact with ⟨u, hu, hreq, hmask⟩
        refine ⟨u, ht.trans hu, ?_⟩
        intro hmarked
        exact hclear (hmask ▸ hmarked hreq)
    | _ => cases hpw

/-! ## When the mark survives -/

/-- `canService` spares the mark of a transmission: it turns to a value of `CANINTF` for which it
clears the mark only between two transmissions, and no call sets the mark while it is on its way to
clear it. -/
def Spares (s : Sys) : Label → Prop
  | .canService => s.can = .readIntf → ClearsMark (s.regs CANINTF) → ¬ s.UnderWay
  | .sender => s.sender.any SendPc.marks = true → ¬ s.can.willClear = true
  | _ => True

instance (s : Sys) : (l : Label) → Decidable (Spares s l)
  | .canService => inferInstanceAs (Decidable (_ → _ → ¬ _))
  | .sender => inferInstanceAs (Decidable (_ → ¬ _))
  | .reader => inferInstanceAs (Decidable True)
  | .receive _ => inferInstanceAs (Decidable True)
  | .submit _ => inferInstanceAs (Decidable True)
  | .irqHandler _ => inferInstanceAs (Decidable True)
  | .arrive _ => inferInstanceAs (Decidable True)
  | .complete => inferInstanceAs (Decidable True)
  | .raise _ _ => inferInstanceAs (Decidable True)

/-- The invariant of the runs in which the mark survives. -/
structure Marked (s : Sys) : Prop where
  mark : s.UnderWay → s.pendingTxBuf.getLsbD 0 = true
  spared : s.can.willClear = true → ¬ s.UnderWay

namespace Marked

theorem pendingMarked (h : s.Marked) : s.PendingMarked := by
  intro hreq
  exact (and_bit0 _).2 (h.mark (Or.inl hreq))

/-- A step that begins no transmission and leaves `canService` and the mark alone. -/
theorem of_underWay (h : s.Marked) (hunder : t.UnderWay → s.UnderWay) (hcan : t.can = s.can)
    (hmask : t.pendingTxBuf = s.pendingTxBuf) : t.Marked where
  mark hut := by
    rw [hmask]
    exact h.mark (hunder hut)
  spared hpc hut := h.spared (hcan ▸ hpc) (hunder hut)

theorem can (h : s.Marked) (hok : s.can = .readIntf → ClearsMark (s.regs CANINTF) → ¬ s.UnderWay)
    (hm : CanMove s t) : t.Marked := by
  rcases hm.frame with ⟨-, hsender, -, hregs⟩
  have hunder : t.UnderWay → s.UnderWay := by
    intro hut
    rw [UnderWay, hregs TXB0CTRL (by decide) (by decide), hsender] at hut
    exact hut
  refine ⟨?_, ?_⟩
  · intro hut
    rcases hm.mark with hmask | hway
    · rw [hmask]
      exact h.mark (hunder hut)
    · exact absurd (hunder hut) (h.spared hway)
  · intro hpc hut
    rcases hm.willClear hpc with hway | ⟨hread, hclears⟩
    · exact h.spared hway (hunder hut)
    · exact hok hread hclears (hunder hut)

theorem reader (h : s.Marked) (hreads : s.ReaderReads) (hm : ReaderMove s t) : t.Marked := by
  rcases hm.frame with ⟨hcan, hsender, hmask, -⟩
  refine h.of_underWay ?_ hcan hmask
  intro hut
  rw [UnderWay, hm.regs hreads, hsender] at hut
  exact hut

theorem sender (h : s.Marked) (hok : s.sender.any SendPc.marks = true → ¬ s.can.willClear = true)
    (hm : SenderMove s t) : t.Marked := by
  cases hm with
  | test c hpc =>
      refine h.of_underWay ?_ rfl rfl
      rintro (hreq | hwriting)
      · exact Or.inl hreq
      · -- The test of the mask leads to the wait or to the load.
        change (some (SendPc.fromTest c s.pendingTxBuf)).any SendPc.writing = true at hwriting
        rw [SendPc.fromTest] at hwriting
        split at hwriting <;> cases hwriting
  | take c hpc hsem =>
      refine h.of_underWay ?_ rfl rfl
      rintro (hreq | hwriting)
      · exact Or.inl hreq
      · cases hwriting
  | load c hpc =>
      refine h.of_underWay ?_ rfl rfl
      rintro (hreq | hwriting)
      · exact Or.inl hreq
      · cases hwriting
  | store c v a k hpc hsend =>
      -- The transmission begins, with its mark.
      have hnot : ¬ s.can.willClear = true := hok (by rw [hpc]; rfl)
      refine ⟨fun _ => ?_, fun hway => absurd hway hnot⟩
      change (v ||| 0x01#8).getLsbD 0 = true
      simp
  | sending c a k a' k' hpc hrest =>
      have hunder : s.UnderWay := Or.inr (by rw [hpc]; rfl)
      exact h.of_underWay (fun _ => hunder) rfl rfl
  | done c a k hpc hrest =>
      have hunder : s.UnderWay := Or.inr (by rw [hpc]; rfl)
      exact h.of_underWay (fun _ => hunder) rfl rfl

theorem submit (h : s.Marked) {c : SendCall} (hm : s.submit c = some t) : t.Marked := by
  rcases eq_of_submit hm with ⟨-, rfl⟩
  refine h.of_underWay ?_ rfl rfl
  rintro (hreq | hwriting)
  · exact Or.inl hreq
  · cases hwriting

theorem arrive (h : s.Marked) (img : RxImage) : (s.arrive img).Marked := by
  rcases s.arrive_frame img with ⟨hcan, -, hsender, hmask, -⟩
  refine h.of_underWay ?_ hcan hmask
  intro hut
  rw [UnderWay, s.arrive_txb0ctrl, hsender] at hut
  exact hut

theorem complete (h : s.Marked) (hm : s.complete = some t) : t.Marked := by
  have hc := completed_of_complete hm
  exact h.of_underWay (fun _ => Or.inl hc.requested) hc.parties.1 hc.masks.2

theorem raise (h : s.Marked) (flags eflg : Byte) : (s.raise flags eflg).Marked := by
  refine h.of_underWay ?_ rfl rfl
  intro hut
  rw [UnderWay, s.raise_txb0ctrl] at hut
  exact hut

theorem step {l : Label} (h : s.Marked) (hcalls : s.InCalls) (hok : s.Spares l)
    (hstep : Sys.step l s = some t) : t.Marked := by
  rcases Option.map_eq_some_iff.1 hstep with ⟨u, hmove, rfl⟩
  have hu : u.Marked := by
    cases l with
    | canService => exact h.can hok (canMove_of_canStep hmove)
    | reader => exact h.reader hcalls.reads (readerMove_of_readerStep hmove)
    | sender => exact h.sender hok (senderMove_of_senderStep hmove)
    | receive buf =>
        rcases eq_of_receive hmove with ⟨-, rfl⟩
        exact h.of_underWay id rfl rfl
    | submit c => exact h.submit hmove
    | irqHandler now =>
        rcases eq_of_irqHandler hmove with ⟨-, rfl⟩
        exact h.of_underWay id rfl rfl
    | arrive img => exact Option.some.inj hmove ▸ h.arrive img
    | complete => exact h.complete hmove
    | raise flags eflg => exact Option.some.inj hmove ▸ h.raise flags eflg
  exact hu.of_underWay id rfl rfl

theorem boot (r : Regs) : (Sys.boot r).Marked := by
  have hnot : ¬ (Sys.boot r).UnderWay := by
    rintro (hreq | hwriting)
    · have hctrl : (Sys.boot r).regs TXB0CTRL = 0#8 := by
        simp only [Sys.boot]
        rw [Regs.write_self]
      rw [hctrl] at hreq
      exact absurd hreq (by decide)
    · cases hwriting
  exact ⟨fun hunder => absurd hunder hnot, fun _ => hnot⟩

end Marked

/-- A step that does not spare the mark leads to its loss. -/
theorem exists_of_not_spares {l : Label} (hcalls : s.InCalls) (hstep : Sys.step l s = some t)
    (hbad : ¬ s.Spares l) : ∃ u, Reachable Sys.step t u ∧ ¬ u.PendingMarked := by
  have hrem := (hcalls.step hstep).remaining
  rcases Option.map_eq_some_iff.1 hstep with ⟨v, hmove, rfl⟩
  cases l with
  | canService =>
      simp only [Spares, not_forall, not_not] at hbad
      rcases hbad with ⟨hread, hclears, hunder⟩
      have hm := canMove_of_canStep hmove
      have hframe := hm.frame
      -- The send is still under way when `canService` has read the flag.
      have hunder' : v.UnderWay := by
        rw [UnderWay, hframe.2.2.2 TXB0CTRL (by decide) (by decide), hframe.2.1]
        exact hunder
      have hway : v.can.willClear = true := by
        have hv : v = { s with can := RunPc.goto (RunPc.fromIntf (s.regs CANINTF)) } :=
          Option.some.inj (hmove.symm.trans (canStep_at hread))
        rw [hv]
        exact RunPc.willClear_fromIntf hclears
      exact exists_unmarked (s := s.latch v) hunder' hrem hway
  | sender =>
      simp only [Spares, Classical.not_imp, not_not] at hbad
      rcases hbad with ⟨hmarks, hway⟩
      have hm := senderMove_of_senderStep hmove
      exact exists_unmarked (s := s.latch v) (Or.inr (hm.writing hmarks)) hrem
        (hm.frame.1 ▸ hway)
  | _ => exact absurd trivial hbad

end Sys

/-! ## Runs -/

/-- In every run the mark of a pending transmission is kept. -/
def AlwaysMarked : Prop :=
  ∀ (r : Regs) (ls : List Label) (t : Sys), Run Sys.step Free (Sys.boot r) ls t → t.PendingMarked

/-- A message error during the first transmission: the request stays, the mark is cleared. -/
theorem not_alwaysMarked : ¬ AlwaysMarked := by
  intro h
  rcases exists_run_of_exec Sys.step Free (Sys.boot fun _ => 0#8)
    (List.flatten
      [[.canService, .submit (emptyCall 1#32)], List.replicate 7 .sender,
        [.raise MERRF 0#8], List.replicate 6 .canService])
    (fun t => ¬ t.PendingMarked) (by decide +kernel) with ⟨t, hrun, hlost⟩
  exact of_decide_eq_true hlost (h _ _ _ hrun)

/-- In a run in which `canService` spares the marks, a pending transmission is marked; and from each
state of such a run, a step in which it does not leads to a run in which the mark is lost. -/
theorem pendingMarked_of_spares {r : Regs} {ls : List Label} {t : Sys}
    (h : Run Sys.step Sys.Spares (Sys.boot r) ls t) :
    t.PendingMarked ∧ ∀ l u, Sys.step l t = some u → ¬ t.Spares l →
      ∃ v, Reachable Sys.step u v ∧ ¬ v.PendingMarked := by
  have hinv : t.InCalls ∧ t.Marked := by
    refine h.invariant (I := fun s => s.InCalls ∧ s.Marked) ?_
      ⟨Sys.InCalls.boot r, Sys.Marked.boot r⟩
    rintro s l u ⟨hcalls, hmarked⟩ hok hstep
    exact ⟨hcalls.step hstep, hmarked.step hcalls hok hstep⟩
  exact ⟨hinv.2.pendingMarked, fun _ _ hstep hbad => Sys.exists_of_not_spares hinv.1 hstep hbad⟩

/-- An error between two sends; the second is then pending, with its mark. -/
theorem pendingMarked_of_spares_between :
    ∃ t : Sys, t.regs TXB0CTRL &&& TXREQ ≠ 0#8 ∧ t.PendingMarked ∧
      ∀ l u, Sys.step l t = some u → ¬ t.Spares l →
        ∃ v, Reachable Sys.step u v ∧ ¬ v.PendingMarked := by
  rcases exists_run_of_exec Sys.step Sys.Spares (Sys.boot fun _ => 0#8)
    (List.flatten
      [[.canService, .submit (emptyCall 1#32)], List.replicate 7 .sender,
        [.complete, .raise ERRIF 0#8], List.replicate 7 .canService,
        [.submit (emptyCall 2#32)], List.replicate 7 .sender])
    (fun t => t.regs TXB0CTRL &&& TXREQ ≠ 0#8) (by decide +kernel) with ⟨t, hrun, hreq⟩
  exact ⟨t, of_decide_eq_true hreq, pendingMarked_of_spares hrun⟩

end Mcp2515Task
end PicoCppSdk
