import PicoCppSdk.Mcp2515Task.Delivery

/-!
# Receive — frames from the controller to the callers of `rxReadInTask`

`canService` clears `RXnIF` before anybody has read the buffer, which frees the buffer for the next
frame while the last one waits there or is being read: frames are then overwritten, and a read can
return the identifier of one frame with the data of the next.

Where every frame comes when the driver is done with the buffer that it goes to, and no update of
`_pendingRxBuf` comes between the load and the store of another, every frame is returned exactly
once and whole.
-/

namespace PicoCppSdk
namespace Mcp2515Task

open Atomic Mcp2515 Transition

variable {s t : Sys}

/-! ## Histories of the buffers -/

/-- Every frame is returned exactly once, and whole, in a history with the newest event first: what
is returned is the last frame that was loaded into the buffer, and before a buffer is loaded again
its frame has been returned. -/
structure ExactlyOnce (tr : List Event) : Prop where
  source : ∀ (tr₁ tr₂ : List Event) (n : RxBuf) (x : Received) (now : Nat),
    tr = tr₁ ++ .returned n x now :: tr₂ →
      ∃ (img : RxImage) (mid tr₃ : List Event), tr₂ = mid ++ .loaded n img :: tr₃ ∧
        (∀ e ∈ mid, e.about n = false) ∧ ∃ buf, x = img.received buf
  kept : ∀ (tr₁ mid tr₂ : List Event) (n : RxBuf) (img img' : RxImage),
    tr = tr₁ ++ .loaded n img :: (mid ++ .loaded n img' :: tr₂) →
      ∃ x now, .returned n x now ∈ mid

namespace ExactlyOnce

variable {n : RxBuf} {img : RxImage} {tr : List Event} {e : Event}

theorem nil : ExactlyOnce [] :=
  ⟨fun _ _ _ _ _ h => absurd h (by simp), fun _ _ _ _ _ _ h => absurd h (by simp)⟩

theorem tail (h : ExactlyOnce (e :: tr)) : ExactlyOnce tr := by
  refine ⟨?_, ?_⟩
  · intro tr₁ tr₂ n x now htr
    exact h.source (e :: tr₁) tr₂ n x now (congrArg (e :: ·) htr)
  · intro tr₁ mid tr₂ n img img' htr
    exact h.kept (e :: tr₁) mid tr₂ n img img' (congrArg (e :: ·) htr)

theorem other (h : ExactlyOnce tr) (he : ∀ n, e.about n = false) : ExactlyOnce (e :: tr) := by
  refine ⟨?_, ?_⟩
  · intro tr₁ tr₂ n x now htr
    cases tr₁ with
    | nil =>
        cases htr
        exact absurd (he n) (by simp [Event.about])
    | cons e' tr₁ =>
        exact h.source tr₁ tr₂ n x now (List.cons.inj htr).2
  · intro tr₁ mid tr₂ n img img' htr
    cases tr₁ with
    | nil =>
        cases htr
        exact absurd (he n) (by simp [Event.about])
    | cons e' tr₁ =>
        exact h.kept tr₁ mid tr₂ n img img' (List.cons.inj htr).2

theorem loaded (h : ExactlyOnce tr) (hempty : unread n tr = none) :
    ExactlyOnce (.loaded n img :: tr) := by
  refine ⟨?_, ?_⟩
  · intro tr₁ tr₂ m x now htr
    cases tr₁ with
    | nil => cases htr
    | cons e' tr₁ =>
        exact h.source tr₁ tr₂ m x now (List.cons.inj htr).2
  · intro tr₁ mid tr₂ m img₁ img₂ htr
    cases tr₁ with
    | nil =>
        cases htr
        exact returned_of_unread hempty rfl
    | cons e' tr₁ =>
        exact h.kept tr₁ mid tr₂ m img₁ img₂ (List.cons.inj htr).2

theorem returned (h : ExactlyOnce tr) (hfull : unread n tr = some img) {buf : Nat → Byte}
    {now : Nat} : ExactlyOnce (.returned n (img.received buf) now :: tr) := by
  refine ⟨?_, ?_⟩
  · intro tr₁ tr₂ m x now' htr
    cases tr₁ with
    | nil =>
        cases htr
        rcases exists_of_unread hfull with ⟨mid, tr₃, htr₃, hmid⟩
        exact ⟨img, mid, tr₃, htr₃, hmid, buf, rfl⟩
    | cons e' tr₁ =>
        exact h.source tr₁ tr₂ m x now' (List.cons.inj htr).2
  · intro tr₁ mid tr₂ m img₁ img₂ htr
    cases tr₁ with
    | nil => cases htr
    | cons e' tr₁ =>
        exact h.kept tr₁ mid tr₂ m img₁ img₂ (List.cons.inj htr).2

end ExactlyOnce

/-! ## Inside a read -/

/-- A register file that holds `img` in buffer `n`. -/
def imageRegs (n : RxBuf) (img : RxImage) : Regs :=
  Regs.load (fun _ => 0#8) n img

/-- The rest of a read of buffer `n` looks at the buffer only, and returns the frame `img`. -/
def InRead (n : RxBuf) (img : RxImage) (buf : Nat → Byte) (a : BusAct)
    (k : a.Ans → Driver Received) : Prop :=
  (Prog.act a k).Performs BusAct.onRegs (ReadsBuffer n) (imageRegs n img) ∧
    ((Prog.act a k).run BusAct.onRegs (imageRegs n img)).1 = img.received buf

section InRead

variable {n : RxBuf} {img : RxImage} {buf : Nat → Byte} {a : BusAct} {k : a.Ans → Driver Received}
  {r : Regs}

theorem InRead.start (hdlc : img.dlc &&& 0x0F#8 ≤ 8#8) (h : rxRead n buf = .act a k) :
    InRead n img buf a k := by
  have hat : imageRegs n img (n.base + BitVec.ofNat 8 4) = img.dlc :=
    Regs.load_base _ n img (by decide)
  refine ⟨?_, ?_⟩
  · rw [← h]
    apply rxRead_performs
    rw [hat]
    exact hdlc
  · rw [← h, imageRegs, rxRead_load n img hdlc]

/-- On registers that hold the frame, the next read answers as it does on the frame alone. -/
theorem InRead.answer (h : InRead n img buf a k) (hr : Holds r n img) :
    (k (a.onRegs r).1).Performs BusAct.onRegs (ReadsBuffer n) (imageRegs n img) ∧
      ((k (a.onRegs r).1).run BusAct.onRegs (imageRegs n img)).1 = img.received buf := by
  rcases h with ⟨⟨⟨j, hj, rfl⟩, hperforms⟩, hrun⟩
  have hanswer : (BusAct.onRegs (.readByte (n.base + BitVec.ofNat 8 j)) r).1 =
      (BusAct.onRegs (.readByte (n.base + BitVec.ofNat 8 j)) (imageRegs n img)).1 := by
    have hload : imageRegs n img (n.base + BitVec.ofNat 8 j) = img.byte j :=
      Regs.load_base _ n img hj
    exact (hr j hj).trans hload.symm
  rw [hanswer]
  exact ⟨hperforms, hrun⟩

theorem InRead.next (h : InRead n img buf a k) (hr : Holds r n img) {a' : BusAct}
    {k' : a'.Ans → Driver Received} (hrest : k (a.onRegs r).1 = .act a' k') :
    InRead n img buf a' k' := by
  have hanswer := h.answer hr
  rw [hrest] at hanswer
  exact hanswer

theorem InRead.result (h : InRead n img buf a k) (hr : Holds r n img) {x : Received}
    (hrest : k (a.onRegs r).1 = .ret x) : x = img.received buf := by
  have hanswer := h.answer hr
  rw [hrest] at hanswer
  exact hanswer.2

end InRead

/-! ## The invariant -/

/-- The receive side: which buffers hold a frame, what they hold, and how far the reader is. -/
structure Sys.RxInv (s : Sys) : Prop where
  counts : s.RxCounts fun n => (unread n s.trace).isSome
  reads : s.ReaderReads
  writes : s.SenderWrites
  holds : ∀ n img, unread n s.trace = some img →
    img.dlc &&& 0x0F#8 ≤ 8#8 ∧ Holds s.regs n img
  inRead : ∀ n now a k, s.reader = some (.reading n now a k) →
    ∃ img buf, unread n s.trace = some img ∧ InRead n img buf a k
  once : ExactlyOnce s.trace

namespace Sys.RxInv

theorem delivery (h : s.RxInv) : s.Delivery s.pendingRxBuf :=
  ⟨h.counts, h.reads, h.writes, fun n img hn => (h.holds n img hn).2⟩

/-- A step that concerns no frame, and no read under way. -/
theorem congr (h : s.RxInv) (ht : t.Delivery t.pendingRxBuf)
    (hinRead : ∀ n now a k, t.reader = some (.reading n now a k) →
      ∃ img buf, unread n s.trace = some img ∧ InRead n img buf a k)
    (htrace : t.trace = s.trace ∨ ∃ e, (∀ n, Event.about n e = false) ∧ t.trace = e :: s.trace) :
    t.RxInv := by
  have hunread : ∀ n, unread n t.trace = unread n s.trace := by
    intro n
    rcases htrace with htrace | ⟨e, he, htrace⟩
    · rw [htrace]
    · rw [htrace, unread_cons_of_not_about (he n)]
  refine ⟨ht.counts, ht.reads, ht.writes, ?_, ?_, ?_⟩
  · intro n img hn
    exact ⟨(h.holds n img (hunread n ▸ hn)).1, ht.holds n img hn⟩
  · intro n now a k hr
    rw [hunread n]
    exact hinRead n now a k hr
  · rcases htrace with htrace | ⟨e, he, htrace⟩
    · rw [htrace]
      exact h.once
    · rw [htrace]
      exact h.once.other he

theorem reader (h : s.RxInv) (ht : t.Delivery t.pendingRxBuf) (hm : ReaderMove s t) :
    t.RxInv := by
  cases hm with
  | take buf hpc hsem => exact h.congr ht (by rintro _ _ _ _ ⟨⟩) (Or.inl rfl)
  | stamp buf hpc => exact h.congr ht (by rintro _ _ _ _ ⟨⟩) (Or.inl rfl)
  | test buf now hpc =>
      refine h.congr ht ?_ (Or.inl rfl)
      intro n now' a k hr
      simp only [ReadPc.fromTest, Option.some.injEq] at hr
      split at hr <;> cases hr
  | load n buf now hpc => exact h.congr ht (by rintro _ _ _ _ ⟨⟩) (Or.inl rfl)
  | store n buf now v a k hpc hread =>
      -- The buffer is full, and the first transaction of its read comes next.
      refine h.congr ht ?_ (Or.inl rfl)
      intro n' now' a' k' hr
      have hset : s.pendingRxBuf.getLsbD (index n) = true := by
        apply h.counts.chosen n
        rw [hpc]
        simp [ReadPc.chose]
      rcases Option.isSome_iff_exists.1 (h.counts.full_of_mask hset) with ⟨img, himg⟩
      have hstart := InRead.start (h.holds n img himg).1 hread
      cases hr
      exact ⟨img, buf, himg, hstart⟩
  | reading n now a k a' k' hpc hrest =>
      rcases h.inRead n now a k hpc with ⟨img, buf, himg, hin⟩
      have hnext := hin.next (h.holds n img himg).2 hrest
      refine h.congr ht ?_ (Or.inl rfl)
      intro n' now' a₁ k₁ hr
      cases hr
      exact ⟨img, buf, himg, hnext⟩
  | done n now a k x hpc hrest =>
      -- The last transaction: what is returned is the image, and the buffer has been read.
      rcases h.inRead n now a k hpc with ⟨img, buf, himg, hin⟩
      have hx := hin.result (h.holds n img himg).2 hrest
      subst hx
      refine ⟨ht.counts, ht.reads, ht.writes, ?_, (by rintro _ _ _ _ ⟨⟩), h.once.returned himg⟩
      intro m img' hm
      have hunread : unread m (.returned n (img.received buf) now :: s.trace) =
          if n = m then none else unread m s.trace := rfl
      refine ⟨?_, ht.holds m img' hm⟩
      rw [hunread] at hm
      split at hm
      · cases hm
      · exact (h.holds m img' hm).1

end Sys.RxInv

/-! ## Runs -/

/-- The driver is done with buffer `n`: its bit is clear, no reader is inside its read, and
`canService` is not between clearing its flag and setting its bit. -/
def Sys.Done (s : Sys) (n : RxBuf) : Prop :=
  s.can.taking n = false ∧ s.pendingRxBuf.getLsbD (index n) = false ∧
    s.reader.any (ReadPc.reads n) = false

instance (s : Sys) (n : RxBuf) : Decidable (s.Done n) :=
  inferInstanceAs (Decidable (_ ∧ _ ∧ _))

/-- The load overwrites nothing unread. -/
theorem Sys.RxInv.unread_of_target (h : s.RxInv) {n : RxBuf} (htarget : s.rxTarget = some n)
    (hdone : s.Done n) : unread n s.trace = none := by
  rcases hdone with ⟨htaking, hmask, hreads⟩
  have hempty := h.counts.empty (getLsbD_of_rxTarget htarget) htaking hmask hreads
  simpa using hempty

theorem Sys.RxInv.arrive (h : s.RxInv) {img : RxImage} (hdlc : img.dlc &&& 0x0F#8 ≤ 8#8)
    (hspaced : ∀ n ∈ s.rxTarget, unread n s.trace = none)
    (ht : (s.arrive img).Delivery (s.arrive img).pendingRxBuf) : (s.arrive img).RxInv := by
  cases htarget : s.rxTarget with
  | none =>
      simp only [Sys.arrive, htarget] at ht ⊢
      exact h.congr ht h.inRead (Or.inr ⟨.dropped img, fun _ => rfl, rfl⟩)
  | some n =>
      have hnone := hspaced n htarget
      have hunread : ∀ m, unread m (.loaded n img :: s.trace) =
          if n = m then some img else unread m s.trace := fun _ => rfl
      simp only [Sys.arrive, htarget] at ht ⊢
      refine ⟨ht.counts, ht.reads, ht.writes, ?_, ?_, h.once.loaded hnone⟩
      · intro m img' hm
        refine ⟨?_, ht.holds m img' hm⟩
        rw [hunread m] at hm
        by_cases hnm : n = m
        · rw [if_pos hnm] at hm
          cases hm
          exact hdlc
        · rw [if_neg hnm] at hm
          exact (h.holds m img' hm).1
      · intro m now a k hr
        rcases h.inRead m now a k hr with ⟨img', buf, himg, hin⟩
        refine ⟨img', buf, ?_, hin⟩
        rw [hunread m]
        by_cases hnm : n = m
        · -- A read under way is in an unread image, and this buffer has none.
          subst hnm
          rw [hnone] at himg
          cases himg
        · rw [if_neg hnm]
          exact himg

/-- The controller of the data sheet sets `RXnIF` only with a load. -/
def FlagsByLoads (_ : Sys) : Label → Prop
  | .raise flags _ => ∀ n, flags.getLsbD (index n) = false
  | _ => True

/-- Every frame has at most eight data bytes and comes when the driver is done with the buffer that
it goes to, and a store to `_pendingRxBuf` finds the value that was loaded for it. -/
def Undisturbed (s : Sys) : Label → Prop
  | .arrive img => img.dlc &&& 0x0F#8 ≤ 8#8 ∧ ∀ n ∈ s.rxTarget, s.Done n
  | .canService => ∀ v ∈ s.can.loadedRx, s.pendingRxBuf = v
  | .reader => ∀ p ∈ s.reader, ∀ v ∈ p.loadedRx, s.pendingRxBuf = v
  | .submit c => c.len ≤ 8#8
  | _ => True

instance (s : Sys) : (l : Label) → Decidable (FlagsByLoads s l)
  | .raise flags _ => inferInstanceAs (Decidable (∀ n, flags.getLsbD (index n) = false))
  | .canService => inferInstanceAs (Decidable True)
  | .reader => inferInstanceAs (Decidable True)
  | .sender => inferInstanceAs (Decidable True)
  | .receive _ => inferInstanceAs (Decidable True)
  | .submit _ => inferInstanceAs (Decidable True)
  | .irqHandler _ => inferInstanceAs (Decidable True)
  | .arrive _ => inferInstanceAs (Decidable True)
  | .complete => inferInstanceAs (Decidable True)

instance (s : Sys) : (l : Label) → Decidable (Undisturbed s l)
  | .arrive img =>
      inferInstanceAs (Decidable (img.dlc &&& 0x0F#8 ≤ 8#8 ∧ ∀ n ∈ s.rxTarget, s.Done n))
  | .canService => inferInstanceAs (Decidable (∀ v ∈ s.can.loadedRx, s.pendingRxBuf = v))
  | .reader =>
      inferInstanceAs (Decidable (∀ p ∈ s.reader, ∀ v ∈ p.loadedRx, s.pendingRxBuf = v))
  | .submit c => inferInstanceAs (Decidable (c.len ≤ 8#8))
  | .sender => inferInstanceAs (Decidable True)
  | .receive _ => inferInstanceAs (Decidable True)
  | .irqHandler _ => inferInstanceAs (Decidable True)
  | .complete => inferInstanceAs (Decidable True)
  | .raise _ _ => inferInstanceAs (Decidable True)

/-- Frames that come when the driver is done with their buffer are spaced. -/
theorem Sys.RxInv.spaced {l : Label} (h : s.RxInv) (hflags : FlagsByLoads s l)
    (hok : Undisturbed s l) : Spaced s l := by
  cases l with
  | arrive img => exact fun n hn => h.unread_of_target hn (hok.2 n hn)
  | raise flags eflg => exact hflags
  | submit c => exact hok
  | _ => trivial

theorem Sys.RxInv.move {l : Label} (h : s.RxInv) (hflags : FlagsByLoads s l)
    (hok : Undisturbed s l) (hmove : s.move l = some t) : t.RxInv := by
  have hspaced := h.spaced hflags hok
  -- Without a disturbance the mask is what the compound assignments make of it.
  have ht := h.delivery.move hspaced rfl hmove
  rw [← Sys.pendingRxBuf_of_move hmove (fun hl => by subst hl; exact hok)
    fun hl => by subst hl; exact hok] at ht
  cases l with
  | canService =>
      rcases (canMove_of_canStep hmove).frame with ⟨hreader, -, htrace, -⟩
      refine h.congr ht ?_ (Or.inl htrace)
      rw [hreader]
      exact h.inRead
  | reader => exact h.reader ht (readerMove_of_readerStep hmove)
  | sender =>
      rcases (senderMove_of_senderStep hmove).frame with ⟨-, hreader, -, -, htrace⟩
      refine h.congr ht ?_ (Or.inl htrace)
      rw [hreader]
      exact h.inRead
  | receive buf =>
      rcases Sys.eq_of_receive hmove with ⟨-, rfl⟩
      exact h.congr ht (by rintro _ _ _ _ ⟨⟩) (Or.inl rfl)
  | submit c =>
      rcases Sys.eq_of_submit hmove with ⟨-, rfl⟩
      exact h.congr ht h.inRead (Or.inr ⟨.submitted c, fun _ => rfl, rfl⟩)
  | irqHandler now =>
      rcases Sys.eq_of_irqHandler hmove with ⟨-, rfl⟩
      exact h.congr ht h.inRead (Or.inl rfl)
  | arrive img =>
      cases hmove
      exact h.arrive hok.1 hspaced ht
  | complete =>
      have hc := Sys.completed_of_complete hmove
      refine h.congr ht ?_ (Or.inr ⟨_, fun _ => rfl, hc.trace⟩)
      rw [hc.parties.2.1]
      exact h.inRead
  | raise flags eflg =>
      cases hmove
      exact h.congr ht h.inRead (Or.inl rfl)

theorem Sys.RxInv.step {l : Label} (h : s.RxInv) (hflags : FlagsByLoads s l)
    (hok : Undisturbed s l) (hstep : Sys.step l s = some t) : t.RxInv := by
  rcases Option.map_eq_some_iff.1 hstep with ⟨u, hmove, rfl⟩
  have hu := h.move hflags hok hmove
  exact ⟨hu.counts, hu.reads, ⟨hu.writes.len, hu.writes.sending⟩, hu.holds, hu.inRead, hu.once⟩

theorem Sys.RxInv.boot (r : Regs) : (Sys.boot r).RxInv := by
  have hboot := Sys.Delivery.boot r
  refine ⟨hboot.counts, hboot.reads, hboot.writes, ?_, ?_, .nil⟩
  · rintro n img ⟨⟩
  · rintro n now a k ⟨⟩

/-- What the receive side owes its callers: every frame is returned exactly once and whole, and a
frame that has not been returned is still in its buffer. -/
structure Sys.ReceivesOnce (s : Sys) : Prop where
  once : ExactlyOnce s.trace
  waiting : ∀ (tr₁ tr₂ : List Event) (n : RxBuf) (img : RxImage),
    s.trace = tr₁ ++ .loaded n img :: tr₂ → (∀ x now, .returned n x now ∉ tr₁) →
      Holds s.regs n img

/-- A frame that was loaded and not returned is the unread one. -/
theorem ExactlyOnce.unread_of_not_returned {tr₁ tr₂ : List Event} {n : RxBuf} {img : RxImage}
    (h : ExactlyOnce (tr₁ ++ .loaded n img :: tr₂)) (hnot : ∀ x now, .returned n x now ∉ tr₁) :
    unread n (tr₁ ++ .loaded n img :: tr₂) = some img := by
  induction tr₁ with
  | nil => exact if_pos rfl
  | cons e tr₁ ih =>
      rw [List.cons_append] at h ⊢
      cases he : e.about n with
      | false =>
          rw [unread_cons_of_not_about he]
          exact ih h.tail fun x now hmem => hnot x now (List.mem_cons_of_mem e hmem)
      | true =>
          cases e with
          | loaded m img' =>
              have hm : m = n := eq_of_beq he
              subst hm
              -- A second load: the frame before it has been returned.
              rcases h.kept [] tr₁ tr₂ m img' img rfl with ⟨x, now, hmem⟩
              exact absurd (List.mem_cons_of_mem _ hmem) (hnot x now)
          | returned m x now =>
              have hm : m = n := eq_of_beq he
              subst hm
              exact absurd List.mem_cons_self (hnot x now)
          | _ => cases he

theorem Sys.RxInv.receivesOnce (h : s.RxInv) : s.ReceivesOnce := by
  refine ⟨h.once, ?_⟩
  intro tr₁ tr₂ n img htrace hnot
  have hunread : unread n s.trace = some img := by
    have honce := h.once
    rw [htrace] at honce ⊢
    exact honce.unread_of_not_returned hnot
  exact (h.holds n img hunread).2

/-- Whatever the interleaving, every frame that the controller loads is returned exactly once and
whole. -/
def ReceivesExactlyOnce : Prop :=
  ∀ (r : Regs) (ls : List Label) (t : Sys),
    Run Sys.step FlagsByLoads (Sys.boot r) ls t → t.ReceivesOnce

/-- A second frame arrives between the reads of `DLC` and `D0`. -/
def tornSchedule : List Label :=
  .canService :: .arrive (oneByte 0x10#8 0x11#8) :: List.replicate 8 .canService ++
    .receive (fun _ => 0#8) :: List.replicate 8 .reader ++
    [.arrive (oneByte 0x20#8 0x22#8), .reader]

/-- A return with the identifier of the first of two frames and the data of the second. -/
def torn (t : Sys) : Bool :=
  match t.trace with
  | [.returned .b0 x _, .loaded .b0 _, .loaded .b0 _] => x.canId == 0x80#32 && x.buf 0 == 0x22#8
  | _ => false

/-- Both frames are in the returned one, and the second has overwritten the first. -/
theorem not_receivesExactlyOnce : ¬ ReceivesExactlyOnce := by
  intro h
  rcases exists_run_of_exec Sys.step FlagsByLoads (Sys.boot fun _ => 0#8) tornSchedule torn
    (by decide +kernel) with ⟨t, hrun, htorn⟩
  have honce := (h _ _ _ hrun).once
  unfold torn at htorn
  split at htorn
  · rename_i x now img₂ img₁ htrace
    rcases honce.kept [.returned .b0 x now] [] [] .b0 img₂ img₁ htrace with ⟨_, _, hmem⟩
    cases hmem
  · cases htorn

/-- A frame that comes too early overwrites one that has not been returned. -/
theorem Sys.RxInv.not_receivesOnce (h : s.RxInv) {n : RxBuf} (htarget : s.rxTarget = some n)
    (hdone : ¬ s.Done n) {img : RxImage} (hstep : Sys.step (.arrive img) s = some t) :
    ¬ t.ReceivesOnce := by
  have htrace : t.trace = .loaded n img :: s.trace := by
    rcases Option.map_eq_some_iff.1 hstep with ⟨u, hmove, rfl⟩
    cases hmove
    simp only [Sys.latch, Sys.arrive, htarget]
  have hfull : (unread n s.trace).isSome = true := by
    have hplace := h.counts.place n
    cases hempty : (unread n s.trace).isSome with
    | true => rfl
    | false =>
        rw [hempty, Bool.toNat_false] at hplace
        refine absurd ⟨?_, ?_, ?_⟩ hdone
        · exact Bool.toNat_eq_zero.1 (by omega)
        · exact Bool.toNat_eq_zero.1 (by omega)
        · exact Bool.toNat_eq_zero.1 (by omega)
  rcases Option.isSome_iff_exists.1 hfull with ⟨img₀, hunread⟩
  rcases exists_of_unread hunread with ⟨mid, tr₃, htr, hmid⟩
  intro hreceives
  rcases hreceives.once.kept [] mid tr₃ n img img₀ (by rw [htrace, htr]; rfl) with ⟨x, now, hmem⟩
  have hnot := hmid _ hmem
  simp [Event.about] at hnot

/-- In every run in which the frames come in time and the updates of the mask do not interleave,
every frame is returned exactly once and whole; the first frame that comes too early ends this. -/
theorem receives_of_undisturbed {r : Regs} {ls : List Label} {t : Sys}
    (h : Run Sys.step (fun s l => FlagsByLoads s l ∧ Undisturbed s l) (Sys.boot r) ls t) :
    t.ReceivesOnce ∧
      ∀ (n : RxBuf) (img : RxImage) (u : Sys), t.rxTarget = some n → ¬ t.Done n →
        Sys.step (.arrive img) t = some u → ¬ u.ReceivesOnce := by
  have hinv : t.RxInv := by
    refine h.invariant ?_ (Sys.RxInv.boot r)
    intro s l u hI hok hstep
    exact hI.step hok.1 hok.2 hstep
  refine ⟨hinv.receivesOnce, ?_⟩
  intro n img u htarget hdone hstep
  exact hinv.not_receivesOnce htarget hdone hstep

/-- Two frames, one in each buffer, and two reads. -/
def rolloverSchedule : List Label :=
  .canService :: .arrive (oneByte 0x10#8 0x11#8) :: .arrive (oneByte 0x20#8 0x22#8) ::
    List.replicate 12 .canService ++ .receive (fun _ => 0#8) :: List.replicate 9 .reader ++
    .receive (fun _ => 0#8) :: List.replicate 9 .reader

def bothReturned (t : Sys) : Bool :=
  match t.trace with
  | [.returned .b1 _ _, .returned .b0 _ _, .loaded .b1 _, .loaded .b0 _] => true
  | _ => false

theorem receives_of_undisturbed_rollover :
    ∃ t : Sys, bothReturned t = true ∧ t.ReceivesOnce := by
  rcases exists_run_of_exec Sys.step (fun s l => FlagsByLoads s l ∧ Undisturbed s l)
    (Sys.boot rolloverRegs) rolloverSchedule bothReturned (by decide +kernel) with ⟨t, hrun, hboth⟩
  exact ⟨t, hboth, (receives_of_undisturbed hrun).1⟩

end Mcp2515Task
end PicoCppSdk
