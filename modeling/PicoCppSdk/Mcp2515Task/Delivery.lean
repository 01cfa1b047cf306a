import PicoCppSdk.Mcp2515Task.Mailbox

/-!
# Delivery — the frames that wait in the receive buffers

What is in the receive buffers while no frame is loaded over another one that has not been
returned.  The counts are kept for a mask of their own, which follows `_pendingRxBuf` as if each of
the compound assignments on it were a single step: what the two have to do with each other is left
to the modules that need it.
-/

namespace PicoCppSdk
namespace Mcp2515Task

open Atomic Mcp2515 Transition

variable {s t : Sys}

/-! ## Histories of the buffers -/

namespace Event

/-- Something happens to the frame in buffer `n`. -/
def about (n : RxBuf) : Event → Bool
  | .loaded m _ => m == n
  | .returned m _ _ => m == n
  | _ => false

end Event

/-- The frame in buffer `n` that has not been returned. -/
def unread (n : RxBuf) : List Event → Option RxImage
  | [] => none
  | .loaded m img :: tr => if m = n then some img else unread n tr
  | .returned m _ _ :: tr => if m = n then none else unread n tr
  | .dropped _ :: tr => unread n tr
  | .submitted _ :: tr => unread n tr
  | .transmitted _ :: tr => unread n tr

section Unread

variable {n : RxBuf} {img : RxImage} {tr : List Event} {e : Event}

theorem unread_cons_of_not_about (he : e.about n = false) : unread n (e :: tr) = unread n tr := by
  cases e with
  | loaded m img => exact if_neg (ne_of_beq_false he)
  | returned m x now => exact if_neg (ne_of_beq_false he)
  | _ => rfl

theorem isSome_unread_loaded (m : RxBuf) :
    (unread m (.loaded n img :: tr)).isSome = ((unread m tr).isSome || n == m) := by
  by_cases hm : n = m
  · simp [unread, hm]
  · simp [unread, hm, beq_false_of_ne hm]

theorem isSome_unread_returned (m : RxBuf) {x : Received} {now : Nat} :
    (unread m (.returned n x now :: tr)).isSome = ((unread m tr).isSome && !(n == m)) := by
  by_cases hm : n = m
  · simp [unread, hm]
  · simp [unread, hm, beq_false_of_ne hm]

/-- An unread frame is the last that was loaded, with no return since. -/
theorem exists_of_unread (h : unread n tr = some img) :
    ∃ mid tr₃, tr = mid ++ .loaded n img :: tr₃ ∧ ∀ e ∈ mid, e.about n = false := by
  induction tr with
  | nil => cases h
  | cons e tr ih =>
      -- Back through the history to the load; what is not about the buffer is passed over.
      cases he : e.about n with
      | false =>
          rw [unread_cons_of_not_about he] at h
          rcases ih h with ⟨mid, tr₃, htr, hmid⟩
          refine ⟨e :: mid, tr₃, by rw [htr, List.cons_append], ?_⟩
          intro d hd
          rcases List.mem_cons.1 hd with rfl | hd
          · exact he
          · exact hmid d hd
      | true =>
          cases e with
          | loaded m img' =>
              have hm : m = n := eq_of_beq he
              subst hm
              have himg : img' = img := by
                simpa [unread] using h
              subst himg
              exact ⟨[], tr, rfl, nofun⟩
          | returned m x now =>
              have hm : m = n := eq_of_beq he
              subst hm
              simp [unread] at h
          | _ => cases he

/-- If no frame is unread, the last load was followed by a return. -/
theorem returned_of_unread (h : unread n tr = none) {mid tr₂ : List Event}
    (htr : tr = mid ++ .loaded n img :: tr₂) : ∃ x now, Event.returned n x now ∈ mid := by
  induction mid generalizing tr with
  | nil =>
      subst htr
      simp [unread] at h
  | cons e mid ih =>
      subst htr
      cases he : e.about n with
      | false =>
          rw [List.cons_append, unread_cons_of_not_about he] at h
          rcases ih h rfl with ⟨x, now, hmem⟩
          exact ⟨x, now, List.mem_cons_of_mem e hmem⟩
      | true =>
          cases e with
          | loaded m img' =>
              have hm : m = n := eq_of_beq he
              subst hm
              simp [unread] at h
          | returned m x now =>
              have hm : m = n := eq_of_beq he
              subst hm
              exact ⟨x, now, List.mem_cons_self⟩
          | _ => cases he

end Unread

/-! ## The registers of the buffers -/

/-- The registers hold `img` in buffer `n`. -/
def Holds (r : Regs) (n : RxBuf) (img : RxImage) : Prop :=
  ∀ k, k < 13 → r (n.base + BitVec.ofNat 8 k) = img.byte k

/-- The registers of a standard data frame with one byte. -/
def oneByte (sidh b : Byte) : RxImage :=
  ⟨sidh, 0#8, 0#8, 0#8, 1#8, fun _ => b⟩

/-- The registers of a controller with rollover, as `initialInTask` leaves them for the receive
buffers. -/
def rolloverRegs : Regs :=
  fun a => if a = RXB0CTRL then RXM_RCV_ALL ||| BUKT_ROLLOVER else 0#8

section Addresses

variable {n : RxBuf} {k : Nat}

theorem rx_address_le (n : RxBuf) (hk : k < 13) :
    0x61 ≤ (n.base + BitVec.ofNat 8 k).toNat := by
  cases n <;> simp only [RxBuf.base, BitVec.toNat_add, BitVec.toNat_ofNat] <;> simp <;> omega

theorem rx_address_ne (n : RxBuf) (hk : k < 13) {a : Byte} (ha : a.toNat < 0x61) :
    n.base + BitVec.ofNat 8 k ≠ a := by
  rintro rfl
  exact absurd (rx_address_le n hk) (Nat.not_le.2 ha)

theorem rx_address_not_inTxb0 (n : RxBuf) (hk : k < 13) :
    ¬ InTxb0 (n.base + BitVec.ofNat 8 k) := by
  have hle := rx_address_le n hk
  generalize n.base + BitVec.ofNat 8 k = a at hle ⊢
  simp only [InTxb0, BitVec.toNat_sub]
  simp
  omega

/-- The two buffers are apart. -/
theorem load_other {m : RxBuf} (hne : m ≠ n) (hk : k < 13) (r : Regs) (img : RxImage) :
    r.load m img (n.base + BitVec.ofNat 8 k) = r (n.base + BitVec.ofNat 8 k) := by
  apply Regs.load_of_outside
  cases m <;> cases n
  · exact absurd rfl hne
  · simp only [RxBuf.base, BitVec.toNat_sub, BitVec.toNat_add, BitVec.toNat_ofNat]
    simp
    omega
  · simp only [RxBuf.base, BitVec.toNat_sub, BitVec.toNat_add, BitVec.toNat_ofNat]
    simp
    omega
  · exact absurd rfl hne

end Addresses

theorem getLsbD_of_rxTarget {n : RxBuf} (h : s.rxTarget = some n) :
    (s.regs CANINTF).getLsbD (index n) = false := by
  have hflag : s.regs CANINTF &&& rxFlag n = 0#8 := by
    unfold Sys.rxTarget at h
    split at h
    · rename_i h0
      cases h
      exact h0
    · split at h
      · rename_i h1
        cases h
        exact h1.2
      · cases h
  exact not_test (test_rxFlag _ n) (not_not.2 hflag)

/-- `CANINTF` after flags other than those of the receive buffers have risen. -/
theorem getLsbD_modify_rise {r : Regs} {flags : Byte}
    (hflags : ∀ n, flags.getLsbD (index n) = false) (n : RxBuf) :
    ((r.modify CANINTF flags flags) CANINTF).getLsbD (index n) = (r CANINTF).getLsbD (index n) := by
  rw [Regs.modify_self, getLsbD_set, hflags n, Bool.or_false]

/-! ## The mask -/

/-- Only the store of the reader clears a bit, and it clears its own. -/
theorem ReaderMove.pendingRxBuf (hm : ReaderMove s t) {p : ReadPc} (hp : s.reader = some p)
    (hown : ∀ v ∈ p.loadedRx, s.pendingRxBuf = v) : t.pendingRxBuf = p.drops s.pendingRxBuf := by
  cases hm with
  | store n buf now v a k hpc hread =>
      cases hp.symm.trans hpc
      rw [hown v rfl]
      rfl
  | take buf hpc hsem => cases hp.symm.trans hpc; rfl
  | stamp buf hpc => cases hp.symm.trans hpc; rfl
  | test buf now hpc => cases hp.symm.trans hpc; rfl
  | load n buf now hpc => cases hp.symm.trans hpc; rfl
  | reading n now a k a' k' hpc hrest => cases hp.symm.trans hpc; rfl
  | done n now a k x hpc hrest => cases hp.symm.trans hpc; rfl

namespace Sys

/-- `mask` behind a step, the compound assignments taken as single steps. -/
def nextMask (s : Sys) (mask : Byte) : Label → Byte
  | .canService => s.can.marks mask
  | .reader =>
      match s.reader with
      | some p => p.drops mask
      | none => mask
  | _ => mask

/-- A store that finds the value which was loaded for it has the whole effect of its assignment. -/
theorem pendingRxBuf_of_move {l : Label} (hmove : s.move l = some t)
    (hcan : l = .canService → ∀ v ∈ s.can.loadedRx, s.pendingRxBuf = v)
    (hreader : l = .reader → ∀ p ∈ s.reader, ∀ v ∈ p.loadedRx, s.pendingRxBuf = v) :
    t.pendingRxBuf = s.nextMask s.pendingRxBuf l := by
  cases l with
  | canService => exact (canMove_of_canStep hmove).pendingRxBuf (hcan rfl)
  | reader =>
      have hm := readerMove_of_readerStep hmove
      rcases hm.inCall with ⟨p, hp⟩
      simp only [nextMask, hp]
      exact hm.pendingRxBuf hp (hreader rfl p hp)
  | receive buf =>
      rcases eq_of_receive hmove with ⟨-, rfl⟩
      rfl
  | _ => exact (sameReceive rfl hmove).pendingRxBuf

end Sys

/-! ## The invariant -/

/-- No frame is loaded over one that has not been returned, `RXnIF` rises only with a load, and what
is sent fits into TXB0. -/
def Spaced (s : Sys) : Label → Prop
  | .arrive _ => ∀ n ∈ s.rxTarget, unread n s.trace = none
  | .raise flags _ => ∀ n, flags.getLsbD (index n) = false
  | .submit c => c.len ≤ 8#8
  | _ => True

instance (s : Sys) : (l : Label) → Decidable (Spaced s l)
  | .arrive _ => inferInstanceAs (Decidable (∀ n ∈ s.rxTarget, unread n s.trace = none))
  | .raise flags _ => inferInstanceAs (Decidable (∀ n, flags.getLsbD (index n) = false))
  | .submit c => inferInstanceAs (Decidable (c.len ≤ 8#8))
  | .canService => inferInstanceAs (Decidable True)
  | .reader => inferInstanceAs (Decidable True)
  | .sender => inferInstanceAs (Decidable True)
  | .receive _ => inferInstanceAs (Decidable True)
  | .irqHandler _ => inferInstanceAs (Decidable True)
  | .complete => inferInstanceAs (Decidable True)

/-- The receive side, with `mask` for what is in `_pendingRxBuf`. -/
structure Sys.Delivery (s : Sys) (mask : Byte) : Prop where
  counts : Mcp2515Task.RxCounts (s.regs CANINTF) s.can mask s.rxSem s.reader
    fun n => (unread n s.trace).isSome
  reads : s.ReaderReads
  writes : s.SenderWrites
  holds : ∀ n img, unread n s.trace = some img → Holds s.regs n img

namespace Sys.Delivery

variable {mask mask' : Byte}

/-- A step that concerns no frame. -/
theorem congr (h : s.Delivery mask)
    (hcounts : Mcp2515Task.RxCounts (t.regs CANINTF) t.can mask' t.rxSem t.reader
      fun n => (unread n s.trace).isSome)
    (hreads : t.ReaderReads) (hwrites : t.SenderWrites)
    (htrace : ∀ n, unread n t.trace = unread n s.trace)
    (hregs : ∀ (n : RxBuf) k, k < 13 →
      t.regs (n.base + BitVec.ofNat 8 k) = s.regs (n.base + BitVec.ofNat 8 k)) :
    t.Delivery mask' := by
  refine ⟨?_, hreads, hwrites, ?_⟩
  · simp only [htrace]
    exact hcounts
  · intro n img hn k hk
    rw [htrace n] at hn
    exact (hregs n k hk).trans (h.holds n img hn k hk)

theorem can (h : s.Delivery mask) (hm : CanMove s t) : t.Delivery (s.can.marks mask) := by
  rcases hm.frame with ⟨hreader, hsender, htrace, hregs⟩
  refine h.congr (h.counts.can hm) ?_ ?_ (fun n => by rw [htrace]) ?_
  · intro n now a k hr
    exact h.reads n now a k (hreader ▸ hr)
  · apply h.writes.congr hsender
    intro a ha
    apply hregs
    · rintro rfl
      exact absurd ha (by decide)
    · rintro rfl
      exact absurd ha (by decide)
  · intro n k hk
    exact hregs _ (rx_address_ne n hk (by decide)) (rx_address_ne n hk (by decide))

theorem sender (h : s.Delivery mask) (hm : SenderMove s t) : t.Delivery mask := by
  rcases hm.frame with ⟨hcan, hreader, hmask, hsem, htrace⟩
  have hintf : t.regs CANINTF = s.regs CANINTF := h.writes.regs hm (by decide) (by decide)
  refine h.congr ?_ ?_ (h.writes.step hm) (fun n => by rw [htrace]) ?_
  · rw [hintf, hcan, hsem, hreader]
    exact h.counts
  · intro n now a k hr
    exact h.reads n now a k (hreader ▸ hr)
  · intro n k hk
    exact h.writes.regs hm (rx_address_not_inTxb0 n hk) (rx_address_ne n hk (by decide))

/-- The reader, whose choice depends on bit 0 alone. -/
theorem reader (h : s.Delivery mask) (hm : ReaderMove s t) {p : ReadPc} (hp : s.reader = some p)
    (hzero : s.pendingRxBuf.getLsbD 0 = mask.getLsbD 0) : t.Delivery (p.drops mask) := by
  have hreads := hm.readerReads h.reads
  have hregs := hm.regs h.reads
  have hcounts := h.counts
  cases hm with
  | take buf hpc hsem =>
      cases hp.symm.trans hpc
      rw [hpc] at hcounts
      exact h.congr (hcounts.takeToken hsem) hreads ⟨h.writes.len, h.writes.sending⟩
        (fun _ => rfl) fun _ _ _ => rfl
  | stamp buf hpc =>
      cases hp.symm.trans hpc
      rw [hpc] at hcounts
      exact h.congr (hcounts.setReader (fun _ => rfl) rfl (by rintro _ ⟨⟩)) hreads
        ⟨h.writes.len, h.writes.sending⟩ (fun _ => rfl) fun _ _ _ => rfl
  | test buf now hpc =>
      cases hp.symm.trans hpc
      rw [hpc] at hcounts
      -- The mask has the same bit 0, and the reader looks at no other.
      have hgo : ReadPc.fromTest buf now s.pendingRxBuf = ReadPc.fromTest buf now mask := by
        have hiff : s.pendingRxBuf &&& 0x01#8 ≠ 0#8 ↔ mask &&& 0x01#8 ≠ 0#8 := by
          rw [and_bit0, and_bit0, hzero]
        simp only [ReadPc.fromTest, hiff]
      refine h.congr ?_ hreads ⟨h.writes.len, h.writes.sending⟩ (fun _ => rfl) fun _ _ _ => rfl
      exact hgo ▸ hcounts.test
  | load n buf now hpc =>
      cases hp.symm.trans hpc
      rw [hpc] at hcounts
      exact h.congr (hcounts.setReader (fun _ => rfl) rfl hcounts.chosen) hreads
        ⟨h.writes.len, h.writes.sending⟩ (fun _ => rfl) fun _ _ _ => rfl
  | store n buf now v a k hpc hread =>
      cases hp.symm.trans hpc
      rw [hpc] at hcounts
      exact h.congr hcounts.drop hreads ⟨h.writes.len, h.writes.sending⟩ (fun _ => rfl)
        fun _ _ _ => rfl
  | reading n now a k a' k' hpc hrest =>
      cases hp.symm.trans hpc
      rw [hpc] at hcounts
      have hregs' : (a.onRegs s.regs).2 = s.regs := hregs
      refine h.congr ?_ hreads (h.writes.congr rfl fun _ _ => ?_) (fun _ => rfl) ?_
      · rw [hregs]
        exact hcounts.setReader (fun _ => rfl) rfl (by rintro _ ⟨⟩)
      · rw [hregs]
      · intro m j _
        rw [hregs]
  | done n now a k x hpc hrest =>
      cases hp.symm.trans hpc
      rw [hpc] at hcounts
      refine ⟨?_, hreads, h.writes.congr rfl fun _ _ => ?_, ?_⟩
      · rw [hregs]
        simp only [isSome_unread_returned]
        -- The buffer that was read holds no frame from here on; the other one is as before.
        exact hcounts.done
      · rw [hregs]
      · intro m img hm
        have hunread : unread m (.returned n x now :: s.trace) =
            if n = m then none else unread m s.trace := rfl
        rw [hunread] at hm
        split at hm
        · cases hm
        · rw [hregs]
          exact h.holds m img hm

/-- An event in the controller that loads no buffer. -/
theorem event (h : s.Delivery mask) (hcan : t.can = s.can) (hreader : t.reader = s.reader)
    (hsender : t.sender = s.sender) (hsem : t.rxSem = s.rxSem)
    (htrace : ∀ n, unread n t.trace = unread n s.trace)
    (hintf : ∀ n, (t.regs CANINTF).getLsbD (index n) = (s.regs CANINTF).getLsbD (index n))
    (hregs : ∀ a, a ≠ CANINTF → a ≠ EFLG → a ≠ TXB0CTRL → t.regs a = s.regs a) :
    t.Delivery mask := by
  refine h.congr ?_ ?_ (h.writes.congr hsender ?_) htrace ?_
  · rw [hcan, hsem, hreader]
    exact h.counts.setIntf hintf
  · intro n now a k hr
    exact h.reads n now a k (hreader ▸ hr)
  · intro a ha
    apply hregs
    · rintro rfl
      exact absurd ha (by decide)
    · rintro rfl
      exact absurd ha (by decide)
    · rintro rfl
      exact absurd ha (by decide)
  · intro n k hk
    exact hregs _ (rx_address_ne n hk (by decide)) (rx_address_ne n hk (by decide))
      (rx_address_ne n hk (by decide))

/-- A frame comes to a buffer whose frame has been returned, or is lost. -/
theorem arrive (h : s.Delivery mask) {img : RxImage}
    (hspaced : ∀ n ∈ s.rxTarget, unread n s.trace = none) : (s.arrive img).Delivery mask := by
  cases htarget : s.rxTarget with
  | none =>
      -- Only the flags for overflow change.
      simp only [Sys.arrive, htarget]
      refine h.event rfl rfl rfl rfl (fun _ => rfl) ?_ ?_
      · intro n
        rw [getLsbD_modify_rise (by intro m; cases m <;> decide), Regs.modify_of_ne (by decide)]
      · intro a hintf heflg _
        exact (Regs.modify_of_ne hintf _ _ _).trans (Regs.modify_of_ne heflg _ _ _)
  | some n =>
      have hempty : (unread n s.trace).isSome = false := by
        rw [hspaced n htarget]
        rfl
      have hintf : s.regs.load n img CANINTF = s.regs CANINTF := by
        apply Regs.load_of_outside
        cases n <;> decide
      have hother : ∀ (m : RxBuf) (k : Nat), k < 13 →
          (s.regs.load n img).modify CANINTF (rxFlag n) (rxFlag n) (m.base + BitVec.ofNat 8 k) =
            s.regs.load n img (m.base + BitVec.ofNat 8 k) := by
        intro m k hk
        exact Regs.modify_of_ne (rx_address_ne m hk (by decide)) _ _ _
      simp only [Sys.arrive, htarget]
      refine ⟨?_, h.reads, h.writes.congr rfl ?_, ?_⟩
      · have hload := h.counts.load hempty
        rw [← hintf, ← Regs.modify_self] at hload
        simp only [isSome_unread_loaded]
        exact hload
      · intro a ha
        have hne : a ≠ CANINTF := by
          rintro rfl
          exact absurd ha (by decide)
        exact (Regs.modify_of_ne hne _ _ _).trans (Regs.load_of_inTxb0 ha _ _ _)
      · intro m img' hm k hk
        have hunread : unread m (.loaded n img :: s.trace) =
            if n = m then some img else unread m s.trace := rfl
        rw [hunread] at hm
        by_cases hnm : n = m
        · subst hnm
          rw [if_pos rfl] at hm
          cases hm
          exact (hother n k hk).trans (Regs.load_base _ n img hk)
        · rw [if_neg hnm] at hm
          calc
            (s.regs.load n img).modify CANINTF (rxFlag n) (rxFlag n) (m.base + BitVec.ofNat 8 k)
                = s.regs.load n img (m.base + BitVec.ofNat 8 k) := hother m k hk
            _ = s.regs (m.base + BitVec.ofNat 8 k) := load_other hnm hk s.regs img
            _ = img'.byte k := h.holds m img' hm k hk

/-- A step of the system, before the interrupt line is looked at. -/
theorem move {l : Label} (h : s.Delivery mask) (hspaced : Spaced s l)
    (hzero : s.pendingRxBuf.getLsbD 0 = mask.getLsbD 0) (hmove : s.move l = some t) :
    t.Delivery (s.nextMask mask l) := by
  cases l with
  | canService => exact h.can (canMove_of_canStep hmove)
  | reader =>
      have hm := readerMove_of_readerStep hmove
      rcases hm.inCall with ⟨p, hp⟩
      simp only [nextMask, hp]
      exact h.reader hm hp hzero
  | sender => exact h.sender (senderMove_of_senderStep hmove)
  | receive buf =>
      rcases Sys.eq_of_receive hmove with ⟨hreader, rfl⟩
      have hcounts := h.counts
      rw [hreader] at hcounts
      refine h.congr (hcounts.setReader (fun _ => rfl) rfl ?_) ?_
        ⟨h.writes.len, h.writes.sending⟩ (fun _ => rfl) fun _ _ _ => rfl
      · intro n hchose
        cases hchose
      · intro n now a k hp
        cases hp
  | submit c =>
      rcases Sys.eq_of_submit hmove with ⟨-, rfl⟩
      refine h.congr h.counts h.reads ⟨?_, ?_⟩ (fun _ => rfl) fun _ _ _ => rfl
      · intro p hp
        cases hp
        exact hspaced
      · intro c' a k hp
        cases hp
  | irqHandler now =>
      rcases Sys.eq_of_irqHandler hmove with ⟨-, rfl⟩
      exact h.congr h.counts h.reads ⟨h.writes.len, h.writes.sending⟩ (fun _ => rfl)
        fun _ _ _ => rfl
  | arrive img => exact Option.some.inj hmove ▸ h.arrive hspaced
  | complete =>
      have hc := Sys.completed_of_complete hmove
      rcases hc.parties with ⟨hcan, hreader, hsender⟩
      refine h.event hcan hreader hsender hc.semaphores.1 (fun n => by rw [hc.trace]; rfl) ?_ ?_
      · intro n
        have hflag : TX0IF.getLsbD (index n) = false := by
          cases n <;> decide
        rw [hc.flagged, hflag, Bool.or_false]
      · intro a hintf _ hctrl
        exact hc.regs a hintf hctrl
  | raise flags eflg =>
      cases hmove
      refine h.event rfl rfl rfl rfl (fun _ => rfl) ?_ ?_
      · intro n
        exact (getLsbD_modify_rise hspaced n).trans
          (congrArg (BitVec.getLsbD · _) (Regs.write_of_ne (by decide) _ _))
      · intro a hintf heflg _
        exact (Regs.modify_of_ne hintf _ _ _).trans (Regs.write_of_ne heflg _ _)

theorem step {l : Label} (h : s.Delivery mask) (hspaced : Spaced s l)
    (hzero : s.pendingRxBuf.getLsbD 0 = mask.getLsbD 0) (hstep : Sys.step l s = some t) :
    t.Delivery (s.nextMask mask l) := by
  rcases Option.map_eq_some_iff.1 hstep with ⟨u, hmove, rfl⟩
  have hu := h.move hspaced hzero hmove
  exact hu.congr hu.counts hu.reads ⟨hu.writes.len, hu.writes.sending⟩ (fun _ => rfl)
    fun _ _ _ => rfl

theorem boot (r : Regs) : (Sys.boot r).Delivery 0#8 := by
  have hintf : (Sys.boot r).regs CANINTF = 0#8 := by
    simp only [Sys.boot]
    rw [Regs.write_of_ne (by decide), Regs.write_self]
  refine ⟨⟨?_, rfl, ?_, ?_, ?_⟩, ?_, ⟨?_, ?_⟩, ?_⟩
  · intro n hn
    cases hn
  · intro n
    rw [hintf, BitVec.getLsbD_zero]
    rfl
  · rw [BitVec.getLsbD_zero, BitVec.getLsbD_zero]
    rfl
  · intro n hn
    cases hn
  · intro n now a k hp
    cases hp
  · intro p hp
    cases hp
  · intro c a k hp
    cases hp
  · intro n img hn
    cases hn

end Sys.Delivery

end Mcp2515Task
end PicoCppSdk
