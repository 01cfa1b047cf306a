import PicoCppSdk.Mcp2515.Access
import PicoCppSdk.Mcp2515Task.Move

/-!
# Footprint — which registers each party changes

`canService` writes `CANINTF` and `CANCTRL`, a reader nothing, and a sender with a CAN payload only
TXB0, which at any time holds the first part of the writes of `txBuffer0Send`.
-/

namespace PicoCppSdk
namespace Mcp2515Task

open Atomic Mcp2515 Transition

variable {s t : Sys}

/-! ## `canService` -/

/-- `canService` writes only `CANINTF` and `CANCTRL`, and leaves the other parties alone. -/
theorem CanMove.frame (h : CanMove s t) :
    t.reader = s.reader ∧ t.sender = s.sender ∧ t.trace = s.trace ∧
      ∀ a, a ≠ CANINTF → a ≠ CANCTRL → t.regs a = s.regs a := by
  cases h with
  | clearErr eflg hpc => exact ⟨rfl, rfl, rfl, fun a hintf _ => Regs.modify_of_ne hintf _ _ _⟩
  | rxClear n f hpc => exact ⟨rfl, rfl, rfl, fun a hintf _ => Regs.modify_of_ne hintf _ _ _⟩
  | txClear f hpc => exact ⟨rfl, rfl, rfl, fun a hintf _ => Regs.modify_of_ne hintf _ _ _⟩
  | reqConfig hpc => exact ⟨rfl, rfl, rfl, fun a _ hctrl => Regs.write_of_ne hctrl _ _⟩
  | reqNormal hpc => exact ⟨rfl, rfl, rfl, fun a _ hctrl => Regs.write_of_ne hctrl _ _⟩
  | _ => exact ⟨rfl, rfl, rfl, fun _ _ _ => rfl⟩

/-! ## The reader -/

/-- Inside a read only reads are left. -/
def Sys.ReaderReads (s : Sys) : Prop :=
  ∀ n now a k, s.reader = some (.reading n now a k) → ReadsOnly (.act a k)

/-- The reader changes no register. -/
theorem ReaderMove.regs (hs : s.ReaderReads) (h : ReaderMove s t) : t.regs = s.regs := by
  cases h with
  | reading n now a k a' k' hpc hrest =>
      rcases (hs n now a k hpc).1 with ⟨addr, rfl⟩
      rfl
  | done n now a k x hpc hrest =>
      rcases (hs n now a k hpc).1 with ⟨addr, rfl⟩
      rfl
  | _ => rfl

theorem ReaderMove.inCall (h : ReaderMove s t) : ∃ p, s.reader = some p := by
  cases h with
  | take buf hpc hsem => exact ⟨_, hpc⟩
  | stamp buf hpc => exact ⟨_, hpc⟩
  | test buf now hpc => exact ⟨_, hpc⟩
  | load n buf now hpc => exact ⟨_, hpc⟩
  | store n buf now v a k hpc hread => exact ⟨_, hpc⟩
  | reading n now a k a' k' hpc hrest => exact ⟨_, hpc⟩
  | done n now a k x hpc hrest => exact ⟨_, hpc⟩

/-- The reader leaves the other parties and the send side alone. -/
theorem ReaderMove.frame (h : ReaderMove s t) :
    t.can = s.can ∧ t.sender = s.sender ∧ t.pendingTxBuf = s.pendingTxBuf ∧
      (t.trace = s.trace ∨ ∃ n x now, t.trace = .returned n x now :: s.trace) := by
  cases h with
  | done n now a k x hpc hrest => exact ⟨rfl, rfl, rfl, Or.inr ⟨n, x, now, rfl⟩⟩
  | _ => exact ⟨rfl, rfl, rfl, Or.inl rfl⟩

theorem ReaderMove.readerReads (hs : s.ReaderReads) (h : ReaderMove s t) : t.ReaderReads := by
  intro n' now' a₁ k₁ ht
  cases h with
  | store n buf now v a k hpc hread =>
      have hreads : ReadsOnly (.act a k) := hread ▸ readsOnly_rxRead n buf
      cases ht
      exact hreads
  | reading n now a k a' k' hpc hrest =>
      have hreads : ReadsOnly (.act a' k') := hrest ▸ (hs n now a k hpc).2 _
      cases ht
      exact hreads
  | test buf now hpc =>
      simp only [ReadPc.fromTest, Option.some.injEq] at ht
      split at ht <;> cases ht
  | _ => cases ht

/-! ## The sender -/

def SendPc.call : SendPc → SendCall
  | .test c => c
  | .take c => c
  | .load c => c
  | .store c _ => c
  | .sending c _ _ => c

/-- The frame of a call. -/
def SendCall.frame (c : SendCall) : CanFrame :=
  CanFrame.ofCall c.canId c.buf c.len

/-- Inside `txBuffer0Send`: the next transaction and the rest are the last part of its writes, and
TXB0 holds what the first part wrote. -/
def Sending (c : SendCall) (a : BusAct) (k : a.Ans → Driver Unit) (r : Regs) : Prop :=
  ∃ (past rest : List (Byte × Byte)) (r₀ : Regs), txBody c.canId c.buf c.len = past ++ rest ∧
    Prog.act a k = ofWrites (rest ++ [(TXB0CTRL, 0x08#8)]) ∧
      ∀ x, InTxb0 x → r x = r₀.writes past x

namespace Sending

variable {c : SendCall} {a : BusAct} {k : a.Ans → Driver Unit} {r r' : Regs}

theorem start (h : txBuffer0Send c.canId c.buf c.len = .act a k) : Sending c a k r := by
  refine ⟨[], txBody c.canId c.buf c.len, r, rfl, ?_, fun x _ => rfl⟩
  rw [← h, txBuffer0Send_eq]

/-- What happens outside TXB0 does not matter. -/
theorem congr (h : Sending c a k r) (hr : ∀ x, InTxb0 x → r' x = r x) : Sending c a k r' := by
  rcases h with ⟨past, rest, r₀, hbody, hact, hagree⟩
  exact ⟨past, rest, r₀, hbody, hact, fun x hx => (hr x hx).trans (hagree x hx)⟩

/-- The next transaction is the request, with the frame complete in TXB0, or a write to TXB0 with
more to come. -/
theorem next (h : Sending c a k r) (hlen : c.len ≤ 8#8) :
    (Prog.act a k = .act (.writeByte TXB0CTRL 0x08#8) (fun _ => .ret ()) ∧ txFrame r = c.frame) ∨
      ∃ (w : Byte × Byte) (a' : BusAct) (k' : a'.Ans → Driver Unit), InTxb0 w.1 ∧
        Prog.act a k = .act (.writeByte w.1 w.2) (fun _ => .act a' k') ∧
          Sending c a' k' (r.write w.1 w.2) := by
  rcases h with ⟨past, rest, r₀, hbody, hact, hagree⟩
  cases rest with
  | nil =>
      refine Or.inl ⟨hact, ?_⟩
      -- All writes are done: TXB0 holds what the whole call would leave there.
      have hsent : txFrame (sentRegs c.canId c.buf c.len r₀) = c.frame :=
        txFrame_sentRegs c.canId c.buf c.len r₀ hlen
      rw [← hsent]
      apply txFrame_congr
      intro x hx
      have hne : x ≠ TXB0CTRL := by
        rintro rfl
        exact absurd hx (by decide)
      rw [hagree x hx, sentRegs, txBuffer0Send_eq, ofWrites_run, hbody, List.append_nil,
        Regs.writes_append]
      exact (Regs.write_of_ne hne _ _).symm
  | cons w rest =>
      have hw : InTxb0 w.1 := txBody_inTxb0 c.canId c.buf c.len hlen w (by simp [hbody])
      rcases exists_ofWrites_append rest (TXB0CTRL, 0x08#8) with ⟨a', k', hmore⟩
      refine Or.inr ⟨w, a', k', hw, ?_, past ++ [w], rest, r₀, ?_, hmore.symm, ?_⟩
      · rw [hact, List.cons_append, ofWrites_cons, hmore]
      · rw [hbody, List.append_assoc, List.singleton_append]
      · intro x hx
        rw [Regs.writes_append]
        -- The register that is written now, and the others of TXB0.
        by_cases hxw : x = w.1
        · rw [hxw, Regs.write_self]
          exact (Regs.write_self _ _ _).symm
        · rw [Regs.write_of_ne hxw, hagree x hx]
          exact (Regs.write_of_ne hxw _ _).symm

end Sending

/-- Inside `txBuffer0Send`, whatever the payload: writes of the call are left, the request last. -/
def Remaining (c : SendCall) (a : BusAct) (k : a.Ans → Driver Unit) : Prop :=
  ∃ rest, (∀ w ∈ rest, w ∈ txBody c.canId c.buf c.len) ∧
    Prog.act a k = ofWrites (rest ++ [(TXB0CTRL, 0x08#8)])

namespace Remaining

variable {c : SendCall} {a : BusAct} {k : a.Ans → Driver Unit}

theorem start (h : txBuffer0Send c.canId c.buf c.len = .act a k) : Remaining c a k := by
  refine ⟨txBody c.canId c.buf c.len, fun _ hw => hw, ?_⟩
  rw [← h, txBuffer0Send_eq]

/-- The next transaction is the request, and nothing follows, or a write of the call with more to
come. -/
theorem next (h : Remaining c a k) :
    Prog.act a k = .act (.writeByte TXB0CTRL 0x08#8) (fun _ => .ret ()) ∨
      ∃ (w : Byte × Byte) (a' : BusAct) (k' : a'.Ans → Driver Unit),
        w ∈ txBody c.canId c.buf c.len ∧
          Prog.act a k = .act (.writeByte w.1 w.2) (fun _ => .act a' k') ∧ Remaining c a' k' := by
  rcases h with ⟨rest, hrest, hact⟩
  cases rest with
  | nil => exact Or.inl hact
  | cons w rest =>
      rcases exists_ofWrites_append rest (TXB0CTRL, 0x08#8) with ⟨a', k', hmore⟩
      refine Or.inr ⟨w, a', k', hrest w List.mem_cons_self, ?_, rest, ?_, hmore.symm⟩
      · rw [hact, List.cons_append, ofWrites_cons, hmore]
      · intro v hv
        exact hrest v (List.mem_cons_of_mem _ hv)

/-- The last transaction is the request. -/
theorem last (h : Remaining c a k) {r : Regs} (hret : k (a.onRegs r).1 = .ret ()) :
    a = .writeByte TXB0CTRL 0x08#8 := by
  rcases h.next with hact | ⟨w, a', k', -, hact, -⟩
  · cases hact
    rfl
  · cases hact
    cases hret

end Remaining

/-- Every sender is somewhere in the writes of its call. -/
def Sys.SenderRemaining (s : Sys) : Prop :=
  ∀ c a k, s.sender = some (.sending c a k) → Remaining c a k

theorem SenderMove.senderRemaining (hs : s.SenderRemaining) (h : SenderMove s t) :
    t.SenderRemaining := by
  intro c' a₁ k₁ ht
  cases h with
  | test c hpc =>
      simp only [SendPc.fromTest, Option.some.injEq] at ht
      split at ht <;> cases ht
  | store c v a k hpc hsend =>
      cases ht
      exact Remaining.start hsend
  | sending c a k a' k' hpc hrest =>
      cases ht
      rcases (hs _ _ _ hpc).next with hact | ⟨w, a₂, k₂, -, hact, hmore⟩
      · cases hact
        cases hrest
      · cases hact
        cases hrest
        exact hmore
  | _ => cases ht

/-- The sender leaves the other parties and the receive side alone. -/
theorem SenderMove.frame (h : SenderMove s t) :
    t.can = s.can ∧ t.reader = s.reader ∧ t.pendingRxBuf = s.pendingRxBuf ∧ t.rxSem = s.rxSem ∧
      t.trace = s.trace := by
  cases h <;> exact ⟨rfl, rfl, rfl, rfl, rfl⟩

/-- What holds of a sender at any time: its payload fits, and what it has written is in TXB0. -/
structure Sys.SenderWrites (s : Sys) : Prop where
  len : ∀ p, s.sender = some p → p.call.len ≤ 8#8
  sending : ∀ c a k, s.sender = some (.sending c a k) → Sending c a k s.regs

namespace Sys.SenderWrites

theorem congr (h : s.SenderWrites) (hsender : t.sender = s.sender)
    (hregs : ∀ a, InTxb0 a → t.regs a = s.regs a) : t.SenderWrites := by
  refine ⟨?_, ?_⟩
  · intro p hp
    exact h.len p (hsender ▸ hp)
  · intro c a k hp
    exact (h.sending c a k (hsender ▸ hp)).congr hregs

/-- A step of the sender keeps this. -/
theorem step (h : s.SenderWrites) (hm : SenderMove s t) : t.SenderWrites := by
  cases hm with
  | test c hpc =>
      have hlen := h.len _ hpc
      by_cases hbit : s.pendingTxBuf &&& 0x01#8 ≠ 0#8
      · have hgo : SendPc.fromTest c s.pendingTxBuf = .take c := if_pos hbit
        refine ⟨?_, ?_⟩
        · intro p hp
          cases (congrArg some hgo).symm.trans hp
          exact hlen
        · intro c' a k hp
          cases (congrArg some hgo).symm.trans hp
      · have hgo : SendPc.fromTest c s.pendingTxBuf = .load c := if_neg hbit
        refine ⟨?_, ?_⟩
        · intro p hp
          cases (congrArg some hgo).symm.trans hp
          exact hlen
        · intro c' a k hp
          cases (congrArg some hgo).symm.trans hp
  | take c hpc hsem =>
      have hlen := h.len _ hpc
      exact ⟨fun p hp => by cases hp; exact hlen, nofun⟩
  | load c hpc =>
      have hlen := h.len _ hpc
      exact ⟨fun p hp => by cases hp; exact hlen, nofun⟩
  | store c v a k hpc hsend =>
      have hlen := h.len _ hpc
      refine ⟨fun p hp => by cases hp; exact hlen, ?_⟩
      intro c' a' k' hp
      cases hp
      exact Sending.start hsend
  | sending c a k a' k' hpc hrest =>
      have hlen : c.len ≤ 8#8 := h.len _ hpc
      refine ⟨fun p hp => by cases hp; exact hlen, ?_⟩
      intro c₂ a₂ k₂ hp
      cases hp
      rcases (h.sending c a k hpc).next hlen with ⟨hact, _⟩ | ⟨w, a₁, k₁, _, hact, hnext⟩
      · cases hact
        cases hrest
      · cases hact
        cases hrest
        -- There is more to come, so this was no request.
        exact hnext
  | done c a k hpc hrest => exact ⟨nofun, nofun⟩

/-- A sender changes registers of TXB0 only. -/
theorem regs (h : s.SenderWrites) (hm : SenderMove s t) {a : Byte} (ha : ¬ InTxb0 a)
    (hctrl : a ≠ TXB0CTRL) : t.regs a = s.regs a := by
  have hnext : ∀ {c b k}, s.sender = some (.sending c b k) →
      (b.onRegs s.regs).2 a = s.regs a := by
    intro c b k hpc
    rcases (h.sending c b k hpc).next (h.len _ hpc) with ⟨hact, _⟩ | ⟨w, _, _, hw, hact, _⟩
    · cases hact
      exact Regs.write_of_ne hctrl _ _
    · cases hact
      apply Regs.write_of_ne
      rintro rfl
      exact ha hw
  cases hm with
  | sending c b k b' k' hpc hrest => exact hnext hpc
  | done c b k hpc hrest => exact hnext hpc
  | _ => rfl

end Sys.SenderWrites

/-! ## The controller -/

/-- The flag that an arriving frame sets in `CANINTF`. -/
def Sys.arriveFlag (s : Sys) : Byte :=
  match s.rxTarget with
  | some n => rxFlag n
  | none => ERRIF

theorem Sys.arrive_intf (s : Sys) (img : RxImage) (i : Nat) :
    ((s.arrive img).regs CANINTF).getLsbD i =
      ((s.regs CANINTF).getLsbD i || s.arriveFlag.getLsbD i) := by
  cases hn : s.rxTarget with
  | some n =>
      have hload : s.regs.load n img CANINTF = s.regs CANINTF := by
        apply Regs.load_of_outside
        cases n <;> decide
      simp only [arrive, arriveFlag, hn, Regs.modify_self, getLsbD_set, hload]
  | none =>
      simp only [arrive, arriveFlag, hn, Regs.modify_self, getLsbD_set]
      rw [Regs.modify_of_ne (by decide)]

theorem Sys.arrive_txb0ctrl (s : Sys) (img : RxImage) :
    (s.arrive img).regs TXB0CTRL = s.regs TXB0CTRL := by
  cases hn : s.rxTarget with
  | some n =>
      simp only [arrive, hn]
      rw [Regs.modify_of_ne (by decide)]
      apply Regs.load_of_outside
      cases n <;> decide
  | none =>
      simp only [arrive, hn]
      rw [Regs.modify_of_ne (by decide), Regs.modify_of_ne (by decide)]

/-- An arriving frame concerns no task. -/
theorem Sys.arrive_frame (s : Sys) (img : RxImage) :
    (s.arrive img).can = s.can ∧ (s.arrive img).reader = s.reader ∧
      (s.arrive img).sender = s.sender ∧ (s.arrive img).pendingTxBuf = s.pendingTxBuf ∧
        (s.arrive img).txSem = s.txSem := by
  rw [arrive]
  split <;> exact ⟨rfl, rfl, rfl, rfl, rfl⟩

/-- Nor does it touch the frame in TXB0. -/
theorem Sys.arrive_inTxb0 (s : Sys) (img : RxImage) {a : Byte} (ha : InTxb0 a) :
    (s.arrive img).regs a = s.regs a := by
  have hintf : a ≠ CANINTF := by
    rintro rfl
    exact absurd ha (by decide)
  have heflg : a ≠ EFLG := by
    rintro rfl
    exact absurd ha (by decide)
  cases hn : s.rxTarget with
  | some n =>
      simp only [arrive, hn]
      calc
        (s.regs.load n img).modify CANINTF (rxFlag n) (rxFlag n) a
            = s.regs.load n img a := Regs.modify_of_ne hintf _ _ _
        _ = s.regs a := Regs.load_of_inTxb0 ha _ _ _
  | none =>
      simp only [arrive, hn]
      exact (Regs.modify_of_ne hintf _ _ _).trans (Regs.modify_of_ne heflg _ _ _)

/-- A completion passes the request from `TXB0CTRL` on to `CANINTF`. -/
structure Sys.Completed (s t : Sys) : Prop where
  requested : s.regs TXB0CTRL &&& TXREQ ≠ 0#8
  cleared : (t.regs TXB0CTRL).getLsbD 3 = false
  flagged : ∀ i, (t.regs CANINTF).getLsbD i = ((s.regs CANINTF).getLsbD i || TX0IF.getLsbD i)
  regs : ∀ a, a ≠ CANINTF → a ≠ TXB0CTRL → t.regs a = s.regs a
  parties : t.can = s.can ∧ t.reader = s.reader ∧ t.sender = s.sender
  masks : t.pendingRxBuf = s.pendingRxBuf ∧ t.pendingTxBuf = s.pendingTxBuf
  semaphores : t.rxSem = s.rxSem ∧ t.txSem = s.txSem
  trace : t.trace = .transmitted (txFrame s.regs) :: s.trace

theorem Sys.completed_of_complete (hm : s.complete = some t) : s.Completed t := by
  by_cases hreq : s.regs TXB0CTRL &&& TXREQ ≠ 0#8
  · simp only [complete, if_pos hreq, Option.some.injEq] at hm
    subst hm
    have hset : (s.regs TXB0CTRL).getLsbD 3 = true := (and_bit3 _).1 hreq
    refine ⟨hreq, ?_, ?_, ?_, ⟨rfl, rfl, rfl⟩, ⟨rfl, rfl⟩, ⟨rfl, rfl⟩, rfl⟩
    · dsimp only
      rw [Regs.modify_of_ne (by decide), Regs.modify_self, getLsbD_clear, hset]
      rfl
    · intro i
      dsimp only
      rw [Regs.modify_self, getLsbD_set, Regs.modify_of_ne (by decide)]
    · intro a hintf hctrl
      exact (Regs.modify_of_ne hintf _ _ _).trans (Regs.modify_of_ne hctrl _ _ _)
  · simp only [complete, if_neg hreq] at hm
    cases hm

theorem Sys.Completed.flag (h : s.Completed t) : (t.regs CANINTF).getLsbD 2 = true := by
  rw [h.flagged]
  exact Bool.or_true _

theorem Sys.raise_intf (s : Sys) (flags eflg : Byte) (i : Nat) :
    ((s.raise flags eflg).regs CANINTF).getLsbD i =
      ((s.regs CANINTF).getLsbD i || flags.getLsbD i) := by
  simp only [raise, Regs.modify_self, getLsbD_set]
  rw [Regs.write_of_ne (by decide)]

theorem Sys.raise_txb0ctrl (s : Sys) (flags eflg : Byte) :
    (s.raise flags eflg).regs TXB0CTRL = s.regs TXB0CTRL := by
  simp only [raise]
  rw [Regs.modify_of_ne (by decide), Regs.write_of_ne (by decide)]

/-! ## The receive side -/

/-- The receive side of the program moves. -/
def Label.receives : Label → Bool
  | .canService => true
  | .reader => true
  | .receive _ => true
  | _ => false

/-- The variables and control points of the receive side are the same. -/
structure Sys.SameReceive (s t : Sys) : Prop where
  can : t.can = s.can
  reader : t.reader = s.reader
  pendingRxBuf : t.pendingRxBuf = s.pendingRxBuf
  rxSem : t.rxSem = s.rxSem
  lastRxTime : t.lastRxTime = s.lastRxTime

theorem Sys.sameReceive {l : Label} (hl : l.receives = false) (hmove : s.move l = some t) :
    s.SameReceive t := by
  cases l with
  | canService => cases hl
  | reader => cases hl
  | receive buf => cases hl
  | sender => cases senderMove_of_senderStep hmove <;> exact ⟨rfl, rfl, rfl, rfl, rfl⟩
  | submit c =>
      rcases eq_of_submit hmove with ⟨-, rfl⟩
      exact ⟨rfl, rfl, rfl, rfl, rfl⟩
  | irqHandler now =>
      rcases eq_of_irqHandler hmove with ⟨-, rfl⟩
      exact ⟨rfl, rfl, rfl, rfl, rfl⟩
  | arrive img =>
      cases hmove
      rw [arrive]
      split <;> exact ⟨rfl, rfl, rfl, rfl, rfl⟩
  | complete =>
      simp only [move, complete] at hmove
      split at hmove
      · cases hmove
        exact ⟨rfl, rfl, rfl, rfl, rfl⟩
      · cases hmove
  | raise flags eflg =>
      cases hmove
      exact ⟨rfl, rfl, rfl, rfl, rfl⟩

/-- Only `canService` moves its control point. -/
theorem Sys.can_of_move {l : Label} (hl : l ≠ .canService) (hmove : s.move l = some t) :
    t.can = s.can := by
  cases l with
  | canService => exact absurd rfl hl
  | reader => exact (readerMove_of_readerStep hmove).frame.1
  | receive buf =>
      rcases eq_of_receive hmove with ⟨-, rfl⟩
      rfl
  | _ => exact (sameReceive rfl hmove).can

/-! ## Where the calls are -/

/-- What holds whatever happens: the reader only reads on, and the sender is in the writes of its
call. -/
structure Sys.InCalls (s : Sys) : Prop where
  reads : s.ReaderReads
  remaining : s.SenderRemaining

namespace Sys.InCalls

theorem congr (h : s.InCalls) (hreader : t.reader = s.reader) (hsender : t.sender = s.sender) :
    t.InCalls := by
  refine ⟨?_, ?_⟩
  · intro n now a k hp
    exact h.reads n now a k (hreader ▸ hp)
  · intro c a k hp
    exact h.remaining c a k (hsender ▸ hp)

theorem step {l : Label} (h : s.InCalls) (hstep : Sys.step l s = some t) : t.InCalls := by
  rcases Option.map_eq_some_iff.1 hstep with ⟨u, hmove, rfl⟩
  have hu : u.InCalls := by
    cases l with
    | canService =>
        have hframe := (canMove_of_canStep hmove).frame
        exact h.congr hframe.1 hframe.2.1
    | reader =>
        have hm := readerMove_of_readerStep hmove
        exact ⟨hm.readerReads h.reads, fun c a k hp => h.remaining c a k (hm.frame.2.1 ▸ hp)⟩
    | sender =>
        have hm := senderMove_of_senderStep hmove
        exact ⟨fun n now a k hp => h.reads n now a k (hm.frame.2.1 ▸ hp),
          hm.senderRemaining h.remaining⟩
    | receive buf =>
        rcases eq_of_receive hmove with ⟨-, rfl⟩
        refine ⟨?_, h.remaining⟩
        intro n now a k hp
        cases hp
    | submit c =>
        rcases eq_of_submit hmove with ⟨-, rfl⟩
        refine ⟨h.reads, ?_⟩
        intro c' a k hp
        cases hp
    | irqHandler now =>
        rcases eq_of_irqHandler hmove with ⟨-, rfl⟩
        exact h.congr rfl rfl
    | arrive img =>
        rcases s.arrive_frame img with ⟨-, hreader, hsender, -, -⟩
        exact Option.some.inj hmove ▸ h.congr hreader hsender
    | complete =>
        rcases (completed_of_complete hmove).parties with ⟨-, hreader, hsender⟩
        exact h.congr hreader hsender
    | raise flags eflg => exact Option.some.inj hmove ▸ h.congr rfl rfl
  exact hu.congr rfl rfl

theorem boot (r : Regs) : (Sys.boot r).InCalls := by
  refine ⟨?_, ?_⟩
  · intro n now a k hp
    cases hp
  · intro c a k hp
    cases hp

end Sys.InCalls

/-- The writes of the sender under every step, sends with a CAN payload assumed. -/
theorem Sys.SenderWrites.systemStep {l : Label} (h : s.SenderWrites) (hreads : s.ReaderReads)
    (hlen : ∀ c, l = .submit c → c.len ≤ 8#8) (hstep : Sys.step l s = some t) :
    t.SenderWrites := by
  -- What the others write is outside TXB0.
  have hne : ∀ {a b : Byte}, InTxb0 a → ¬ InTxb0 b → a ≠ b := by
    rintro a b ha hb rfl
    exact hb ha
  rcases Option.map_eq_some_iff.1 hstep with ⟨u, hmove, rfl⟩
  have hu : u.SenderWrites := by
    cases l with
    | canService =>
        rcases (canMove_of_canStep hmove).frame with ⟨-, hsender, -, hregs⟩
        exact h.congr hsender fun a ha => hregs a (hne ha (by decide)) (hne ha (by decide))
    | reader =>
        have hm := readerMove_of_readerStep hmove
        exact h.congr hm.frame.2.1 fun a _ => congrFun (hm.regs hreads) a
    | sender => exact h.step (senderMove_of_senderStep hmove)
    | receive buf =>
        rcases eq_of_receive hmove with ⟨-, rfl⟩
        exact ⟨h.len, h.sending⟩
    | submit c =>
        rcases eq_of_submit hmove with ⟨-, rfl⟩
        refine ⟨?_, ?_⟩
        · intro p hp
          cases hp
          exact hlen c rfl
        · intro c' a k hp
          cases hp
    | irqHandler now =>
        rcases eq_of_irqHandler hmove with ⟨-, rfl⟩
        exact ⟨h.len, h.sending⟩
    | arrive img =>
        cases hmove
        exact h.congr (s.arrive_frame img).2.2.1 fun a ha => s.arrive_inTxb0 img ha
    | complete =>
        have hc := completed_of_complete hmove
        exact h.congr hc.parties.2.2 fun a ha =>
          hc.regs a (hne ha (by decide)) (hne ha (by decide))
    | raise flags eflg =>
        cases hmove
        refine h.congr rfl fun a ha => ?_
        exact (Regs.modify_of_ne (hne ha (by decide)) _ _ _).trans
          (Regs.write_of_ne (hne ha (by decide)) _ _)
  exact ⟨hu.len, hu.sending⟩

theorem Sys.SenderWrites.boot (r : Regs) : (Sys.boot r).SenderWrites := by
  refine ⟨?_, ?_⟩
  · intro p hp
    cases hp
  · intro c a k hp
    cases hp

end Mcp2515Task
end PicoCppSdk
