import PicoCppSdk.Mcp2515Task.Delivery

/-!
# Mask — the two tasks that update `_pendingRxBuf`

`canService` sets a bit of `_pendingRxBuf` and the reader clears one, each by a load and a store.
If one of them stores while the other is between the two, the later store undoes the earlier one: a bit
of a waiting frame is lost, or the bit of a frame that is being read comes back.

The mask is kept exactly if no store comes between the load and the store of the other task.
-/

namespace PicoCppSdk
namespace Mcp2515Task

open Atomic Mcp2515 Transition

variable {s t : Sys}

/-! ## The loaded values -/

/-- The value that the reader is about to store, changed, in `_pendingRxBuf`. -/
def Sys.readerLoaded (s : Sys) : Option Byte :=
  s.reader.bind ReadPc.loadedRx

/-- Between the load and the store of either task the mask has not changed. -/
structure Sys.OwnsMask (s : Sys) : Prop where
  can : ∀ v ∈ s.can.loadedRx, s.pendingRxBuf = v
  reader : ∀ v ∈ s.readerLoaded, s.pendingRxBuf = v

/-- Only a load leads to the store. -/
theorem CanMove.loadedRx (hm : CanMove s t) {v : Byte} (hv : t.can.loadedRx = some v) :
    s.pendingRxBuf = v ∧ t.pendingRxBuf = s.pendingRxBuf := by
  -- No point that a branch leads to holds a loaded value; only `rxLoad` goes on to one.
  have hgo : ∀ {p : RunPc}, p.loadedRx = none → p.loadedRx ≠ some v := by
    intro p hp
    rw [hp]
    nofun
  cases hm with
  | rxLoad n f hpc => exact ⟨Option.some.inj hv, rfl⟩
  | readIntf hpc =>
      refine absurd hv (hgo ?_)
      rw [RunPc.goto_fromIntf]
      split
      · rfl
      · exact RunPc.goto_fromStamp_of (P := fun p => p.loadedRx = none) rfl (fun _ _ => rfl)
          (fun _ => rfl) (fun _ _ => rfl) rfl rfl
  | clearErr eflg hpc =>
      dsimp only at hv
      split at hv <;> cases hv
  | stampStore f now hpc =>
      exact absurd hv (hgo (RunPc.goto_fromRx0_of (P := fun p => p.loadedRx = none)
        (fun _ _ => rfl) (fun _ => rfl) (fun _ _ => rfl) rfl rfl))
  | rxStore n f w hpc =>
      exact absurd hv (hgo (RunPc.goto_afterRx_of (P := fun p => p.loadedRx = none) n
        (fun _ _ => rfl) (fun _ => rfl) (fun _ _ => rfl) rfl rfl))
  | txStore f w hpc =>
      exact absurd hv (hgo (RunPc.goto_fromGive0_of (P := fun p => p.loadedRx = none)
        (fun _ _ => rfl) rfl rfl))
  | rxGive n f hpc =>
      exact absurd hv (hgo (RunPc.goto_afterGive_of (P := fun p => p.loadedRx = none) n
        (fun _ _ => rfl) rfl rfl))
  | _ => cases hv

theorem ReaderMove.loadedRx (hm : ReaderMove s t) {v : Byte} (hv : t.readerLoaded = some v) :
    s.pendingRxBuf = v ∧ t.pendingRxBuf = s.pendingRxBuf := by
  cases hm with
  | load n buf now hpc => exact ⟨Option.some.inj hv, rfl⟩
  | test buf now hpc =>
      simp only [Sys.readerLoaded, ReadPc.fromTest, Option.bind_some] at hv
      split at hv <;> cases hv
  | _ => cases hv

/-- A control point that is not at its store leaves the mask alone. -/
theorem RunPc.marks_of_not_loaded {p : RunPc} (h : p.loadedRx = none) (mask : Byte) :
    p.marks mask = mask := by
  cases p with
  | rxStore n f v => cases h
  | _ => rfl

theorem ReadPc.drops_of_not_loaded {p : ReadPc} (h : p.loadedRx = none) (mask : Byte) :
    p.drops mask = mask := by
  cases p with
  | store n buf now v => cases h
  | _ => rfl

/-! ## The stores -/

/-- Both tasks are between their load and their store. -/
def Sys.Overlap (s : Sys) : Prop :=
  s.can.loadedRx ≠ none ∧ s.readerLoaded ≠ none

instance (s : Sys) : Decidable s.Overlap :=
  inferInstanceAs (Decidable (_ ∧ _))

/-- Neither task stores to `_pendingRxBuf` while the other is between its load and its store. -/
def Sys.StoresApart (s : Sys) : Label → Prop
  | .canService => ¬ s.Overlap
  | .reader => ¬ s.Overlap
  | _ => True

instance (s : Sys) : (l : Label) → Decidable (s.StoresApart l)
  | .canService => inferInstanceAs (Decidable (¬ s.Overlap))
  | .reader => inferInstanceAs (Decidable (¬ s.Overlap))
  | .sender => inferInstanceAs (Decidable True)
  | .receive _ => inferInstanceAs (Decidable True)
  | .submit _ => inferInstanceAs (Decidable True)
  | .irqHandler _ => inferInstanceAs (Decidable True)
  | .arrive _ => inferInstanceAs (Decidable True)
  | .complete => inferInstanceAs (Decidable True)
  | .raise _ _ => inferInstanceAs (Decidable True)

namespace Sys.OwnsMask

/-- Every step has the whole effect of its assignment. -/
theorem pendingRxBuf {l : Label} (h : s.OwnsMask) (hstep : Sys.step l s = some t) :
    t.pendingRxBuf = s.nextMask s.pendingRxBuf l := by
  rcases Option.map_eq_some_iff.1 hstep with ⟨u, hmove, rfl⟩
  change u.pendingRxBuf = _
  -- The two stores find the mask that was loaded for them.
  refine pendingRxBuf_of_move hmove (fun _ => h.can) fun _ p hp v hv => h.reader v ?_
  rw [readerLoaded, hp]
  exact hv

theorem step {l : Label} (h : s.OwnsMask) (hok : s.StoresApart l)
    (hstep : Sys.step l s = some t) : t.OwnsMask := by
  have hmask := h.pendingRxBuf hstep
  rcases Option.map_eq_some_iff.1 hstep with ⟨u, hmove, rfl⟩
  cases l with
  | canService =>
      have hm := canMove_of_canStep hmove
      have hreader : u.readerLoaded = s.readerLoaded := by
        rw [readerLoaded, hm.frame.1]
        rfl
      refine ⟨?_, ?_⟩
      · intro v hv
        rcases hm.loadedRx hv with ⟨hs, hsame⟩
        exact hsame.trans hs
      · intro v hv
        have hv' : s.readerLoaded = some v := hreader.symm.trans hv
        -- The reader holds a value, so this step is no store.
        have hnone : s.can.loadedRx = none := by
          by_contra hsome
          exact hok ⟨hsome, by rw [hv']; nofun⟩
        rw [hmask, nextMask, RunPc.marks_of_not_loaded hnone]
        exact h.reader v hv'
  | reader =>
      have hm := readerMove_of_readerStep hmove
      rcases hm.inCall with ⟨p, hp⟩
      refine ⟨?_, ?_⟩
      · intro v hv
        have hv' : s.can.loadedRx = some v := hm.frame.1 ▸ hv
        -- `canService` holds a value, so the step of the reader is no store.
        have hnone : s.readerLoaded = none := by
          by_contra hsome
          exact hok ⟨by rw [hv']; nofun, hsome⟩
        have hnone' : p.loadedRx = none := by
          rw [readerLoaded, hp] at hnone
          exact hnone
        rw [hmask]
        simp only [nextMask, hp]
        rw [ReadPc.drops_of_not_loaded hnone']
        exact h.can v hv'
      · intro v hv
        rcases hm.loadedRx hv with ⟨hs, hsame⟩
        exact hsame.trans hs
  | receive buf =>
      rcases eq_of_receive hmove with ⟨-, rfl⟩
      exact ⟨h.can, by rintro v ⟨⟩⟩
  | _ =>
      have hsame := sameReceive rfl hmove
      refine ⟨?_, ?_⟩
      · intro v hv
        exact hsame.pendingRxBuf.trans (h.can v (hsame.can ▸ hv))
      · intro v hv
        have hv' : s.readerLoaded = some v := by
          rw [readerLoaded, ← hsame.reader]
          exact hv
        exact hsame.pendingRxBuf.trans (h.reader v hv')

theorem boot (r : Regs) : (Sys.boot r).OwnsMask := by
  refine ⟨?_, ?_⟩
  · intro v hv
    cases hv
  · intro v hv
    cases hv

end Sys.OwnsMask

/-! ## What the mask promises -/

/-- No update of `_pendingRxBuf` is lost: a read under way is in a buffer whose frame has not been
returned, a set bit is cleared by the call that reads the buffer, and by nothing else, and a clear
bit is set by `canService` when it takes the buffer over, and by nothing else. -/
structure Sys.KeepsMask (s : Sys) : Prop where
  reads : ∀ n now a k, s.reader = some (.reading n now a k) →
    ∃ img, unread n s.trace = some img ∧ Holds s.regs n img
  stays : ∀ l t n, Sys.step l s = some t → s.pendingRxBuf.getLsbD (index n) = true →
    t.pendingRxBuf.getLsbD (index n) = false →
      l = .reader ∧ ∃ buf now v, s.reader = some (.store n buf now v)
  comes : ∀ l t n, Sys.step l s = some t → s.pendingRxBuf.getLsbD (index n) = false →
    t.pendingRxBuf.getLsbD (index n) = true → l = .canService ∧ ∃ f v, s.can = .rxStore n f v

/-- The receive side with the mask that is in `_pendingRxBuf`. -/
structure Sys.MaskInv (s : Sys) : Prop where
  delivery : s.Delivery s.pendingRxBuf
  owns : s.OwnsMask

theorem getLsbD_drop (mask : Byte) (n m : RxBuf) :
    (mask &&& ~~~bit n).getLsbD (index m) = (mask.getLsbD (index m) && !decide (n = m)) := by
  have hm : index m < 8 := by
    cases m <;> decide
  rw [BitVec.getLsbD_and, BitVec.getLsbD_not, getLsbD_bit_index, decide_eq_true hm, Bool.true_and]

/-! ### What clears a bit, and what sets one -/

section NextMask

variable {mask : Byte} {n : RxBuf} {l : Label}

theorem Sys.reader_of_clear (hset : mask.getLsbD (index n) = true)
    (hclear : (s.nextMask mask l).getLsbD (index n) = false) :
    l = .reader ∧ ∃ buf now v, s.reader = some (.store n buf now v) := by
  cases l with
  | reader =>
      refine ⟨rfl, ?_⟩
      cases hp : s.reader with
      | none =>
          simp only [nextMask, hp, hset] at hclear
          cases hclear
      | some p =>
          simp only [nextMask, hp] at hclear
          cases p with
          | store m buf now v =>
              rw [ReadPc.drops, getLsbD_drop, hset, Bool.true_and, Bool.not_eq_false',
                decide_eq_true_eq] at hclear
              subst hclear
              exact ⟨buf, now, v, rfl⟩
          | _ =>
              simp only [ReadPc.drops, hset] at hclear
              cases hclear
  | canService =>
      cases hp : s.can with
      | rxStore m f v =>
          simp only [nextMask, hp, RunPc.marks, BitVec.getLsbD_or, hset] at hclear
          cases hclear
      | _ =>
          simp only [nextMask, hp, RunPc.marks, hset] at hclear
          cases hclear
  | _ =>
      simp only [nextMask, hset] at hclear
      cases hclear

theorem Sys.can_of_set (hclear : mask.getLsbD (index n) = false)
    (hset : (s.nextMask mask l).getLsbD (index n) = true) :
    l = .canService ∧ ∃ f v, s.can = .rxStore n f v := by
  cases l with
  | canService =>
      refine ⟨rfl, ?_⟩
      cases hp : s.can with
      | rxStore m f v =>
          simp only [nextMask, hp, RunPc.marks, BitVec.getLsbD_or, getLsbD_bit_index, hclear,
            Bool.false_or, decide_eq_true_eq] at hset
          subst hset
          exact ⟨f, v, rfl⟩
      | _ =>
          simp only [nextMask, hp, RunPc.marks, hclear] at hset
          cases hset
  | reader =>
      cases hp : s.reader with
      | none =>
          simp only [nextMask, hp, hclear] at hset
          cases hset
      | some p =>
          simp only [nextMask, hp] at hset
          cases p with
          | store m buf now v =>
              rw [ReadPc.drops, getLsbD_drop, hclear] at hset
              cases hset
          | _ =>
              simp only [ReadPc.drops, hclear] at hset
              cases hset
  | _ =>
      simp only [nextMask, hclear] at hset
      cases hset

end NextMask

/-! ### The store of a value that is no longer in the mask -/

theorem Sys.step_reader_store {n : RxBuf} {buf : Nat → Byte} {now : Nat} {v : Byte}
    (hpc : s.reader = some (.store n buf now v)) :
    ∃ t, Sys.step .reader s = some t ∧ t.pendingRxBuf = v &&& ~~~bit n := by
  rcases rxRead_act n buf with ⟨a, k, hread⟩
  have hnext : ReadPc.next (.store n buf now v) () = .inl (.reading n now a k) := by
    simp only [ReadPc.next, hread, ReadPc.ofRead]
  have hstep : s.readerStep = some { s with
      pendingRxBuf := v &&& ~~~bit n, reader := some (.reading n now a k) } := by
    rw [readerStep_at hpc]
    simp only [ReadPc.act, perform, Option.map_some, hnext]
    rfl
  exact ⟨_, congrArg (Option.map s.latch) hstep, rfl⟩

theorem Sys.step_can_store {n : RxBuf} {f v : Byte} (hpc : s.can = .rxStore n f v) :
    ∃ t, Sys.step .canService s = some t ∧ t.pendingRxBuf = v ||| bit n :=
  ⟨_, congrArg (Option.map s.latch) (canStep_at hpc), rfl⟩

namespace Sys.MaskInv

theorem step {l : Label} (h : s.MaskInv) (hspaced : Spaced s l) (hok : s.StoresApart l)
    (hstep : Sys.step l s = some t) : t.MaskInv := by
  refine ⟨?_, h.owns.step hok hstep⟩
  rw [h.owns.pendingRxBuf hstep]
  exact h.delivery.step hspaced rfl hstep

theorem boot (r : Regs) : (Sys.boot r).MaskInv :=
  ⟨.boot r, .boot r⟩

theorem keepsMask (h : s.MaskInv) : s.KeepsMask := by
  refine ⟨?_, ?_, ?_⟩
  · intro n now a k hr
    -- A read under way is one of the places of a frame, so the buffer holds one.
    have hplace := h.delivery.counts.place n
    have hreads : s.reader.any (ReadPc.reads n) = true := by
      rw [hr]
      exact beq_self_eq_true n
    cases hn : unread n s.trace with
    | some img => exact ⟨img, rfl, h.delivery.holds n img hn⟩
    | none =>
        rw [hreads, hn, Option.isSome_none, Bool.toNat_true, Bool.toNat_false] at hplace
        omega
  · intro l t n hstep hset hclear
    rw [h.owns.pendingRxBuf hstep] at hclear
    exact reader_of_clear hset hclear
  · intro l t n hstep hclear hset
    rw [h.owns.pendingRxBuf hstep] at hset
    exact can_of_set hclear hset

/-- Both tasks are at their stores: they are at different bits, and each has loaded the mask as it
is, with the bit of the reader set and that of `canService` clear. -/
theorem overlap (h : s.MaskInv) (hboth : s.Overlap) :
    ∃ n f m buf now, s.can = .rxStore n f s.pendingRxBuf ∧
      s.reader = some (.store m buf now s.pendingRxBuf) ∧ n ≠ m ∧
        s.pendingRxBuf.getLsbD (index n) = false ∧ s.pendingRxBuf.getLsbD (index m) = true := by
  rcases hboth with ⟨hcan, hreader⟩
  rcases Option.ne_none_iff_exists'.1 hcan with ⟨v, hv⟩
  rcases Option.ne_none_iff_exists'.1 hreader with ⟨w, hw⟩
  have hvmask := h.owns.can v hv
  have hwmask := h.owns.reader w hw
  cases hpc : s.can with
  | rxStore n f v' =>
      rw [hpc] at hv
      cases hv
      -- Only the two stores hold a loaded value.
      rcases Option.bind_eq_some_iff.1 hw with ⟨p, hp, hpw⟩
      cases p with
      | store m buf now w' =>
          cases hpw
          -- The reader has chosen a buffer whose bit is set, and `canService` takes one over whose
          -- bit is clear.
          have hset : s.pendingRxBuf.getLsbD (index m) = true := by
            apply h.delivery.counts.chosen
            rw [hp]
            exact beq_self_eq_true m
          have hclear : s.pendingRxBuf.getLsbD (index n) = false := by
            have hcounts := h.delivery.counts
            rw [hpc] at hcounts
            exact hcounts.clear_of_taking (by simp [RunPc.taking])
          refine ⟨n, f, m, buf, now, by rw [hvmask], by rw [hp, hwmask], ?_, hclear, hset⟩
          rintro rfl
          rw [hclear] at hset
          cases hset
      | _ => cases hpw
  | _ =>
      rw [hpc] at hv
      cases hv

/-- A store while the other task is at its own leads to a lost update in the next step. -/
theorem storesApart_of_keepsMask {l : Label} (h : s.MaskInv) (hstep : Sys.step l s = some t)
    (ht : t.KeepsMask) : s.StoresApart l := by
  have hmask := h.owns.pendingRxBuf hstep
  rcases Option.map_eq_some_iff.1 hstep with ⟨u, hmove, rfl⟩
  cases l with
  | canService =>
      intro hboth
      rcases h.overlap hboth with ⟨n, f, m, buf, now, hcan, hreader, hne, hclear, hset⟩
      have hm := canMove_of_canStep hmove
      have hreader' : (s.latch u).reader = some (.store m buf now s.pendingRxBuf) :=
        hm.frame.1.trans hreader
      rcases step_reader_store hreader' with ⟨w, hw, hwmask⟩
      -- The bit that `canService` has just set is gone again.
      have hbefore : (s.latch u).pendingRxBuf.getLsbD (index n) = true := by
        rw [hmask]
        simp [nextMask, hcan, RunPc.marks, getLsbD_bit_index]
      have hafter : w.pendingRxBuf.getLsbD (index n) = false := by
        rw [hwmask, getLsbD_drop, hclear, Bool.false_and]
      rcases ht.stays _ _ n hw hbefore hafter with ⟨-, _, _, _, hn⟩
      cases hreader'.symm.trans hn
      exact hne rfl
  | reader =>
      intro hboth
      rcases h.overlap hboth with ⟨n, f, m, buf, now, hcan, hreader, hne, hclear, hset⟩
      have hm := readerMove_of_readerStep hmove
      have hcan' : (s.latch u).can = .rxStore n f s.pendingRxBuf := hm.frame.1.trans hcan
      rcases step_can_store hcan' with ⟨w, hw, hwmask⟩
      -- The bit that the reader has just cleared is back.
      have hbefore : (s.latch u).pendingRxBuf.getLsbD (index m) = false := by
        rw [hmask]
        simp only [nextMask, hreader, ReadPc.drops, getLsbD_drop, decide_true, Bool.not_true,
          Bool.and_false]
      have hafter : w.pendingRxBuf.getLsbD (index m) = true := by
        rw [hwmask, BitVec.getLsbD_or, hset, Bool.true_or]
      rcases ht.comes _ _ m hw hbefore hafter with ⟨-, _, _, hn⟩
      cases hcan'.symm.trans hn
      exact hne rfl
  | _ => exact trivial

end Sys.MaskInv

/-! ## Bit 0 alone -/

/-- About to store to `_pendingRxBuf` for buffer `n`. -/
def RunPc.stores (n : RxBuf) : RunPc → Bool
  | .rxStore m _ _ => m == n
  | _ => false

def ReadPc.stores (n : RxBuf) : ReadPc → Bool
  | .store m _ _ _ => m == n
  | _ => false

/-- Neither task stores for buffer 0 while the other is about to store, for buffer 1, a value that
it has loaded before. -/
def Sys.ZeroApart (s : Sys) : Label → Prop
  | .canService => ¬ (s.can.stores .b0 = true ∧ s.reader.any (ReadPc.stores .b1) = true)
  | .reader => ¬ (s.reader.any (ReadPc.stores .b0) = true ∧ s.can.stores .b1 = true)
  | _ => True

instance (s : Sys) : (l : Label) → Decidable (s.ZeroApart l)
  | .canService =>
      inferInstanceAs
        (Decidable (¬ (s.can.stores .b0 = true ∧ s.reader.any (ReadPc.stores .b1) = true)))
  | .reader =>
      inferInstanceAs
        (Decidable (¬ (s.reader.any (ReadPc.stores .b0) = true ∧ s.can.stores .b1 = true)))
  | .sender => inferInstanceAs (Decidable True)
  | .receive _ => inferInstanceAs (Decidable True)
  | .submit _ => inferInstanceAs (Decidable True)
  | .irqHandler _ => inferInstanceAs (Decidable True)
  | .arrive _ => inferInstanceAs (Decidable True)
  | .complete => inferInstanceAs (Decidable True)
  | .raise _ _ => inferInstanceAs (Decidable True)

/-- Bit 0 of `_pendingRxBuf`, now and behind the stores to come for buffer 1, is that of `mask`.
Nobody looks at bit 1. -/
structure Sys.Shadows (s : Sys) (mask : Byte) : Prop where
  zero : s.pendingRxBuf.getLsbD 0 = mask.getLsbD 0
  can : ∀ f v, s.can = .rxStore .b1 f v → v.getLsbD 0 = mask.getLsbD 0
  reader : ∀ buf now v, s.reader = some (.store .b1 buf now v) → v.getLsbD 0 = mask.getLsbD 0

theorem getLsbD_zero_set (v : Byte) (n : RxBuf) :
    (v ||| bit n).getLsbD 0 = (v.getLsbD 0 || decide (n = .b0)) := by
  rw [BitVec.getLsbD_or]
  exact congrArg _ (getLsbD_bit_index n .b0)

theorem getLsbD_zero_drop (v : Byte) (n : RxBuf) :
    (v &&& ~~~bit n).getLsbD 0 = (v.getLsbD 0 && !decide (n = .b0)) :=
  getLsbD_drop v n .b0

namespace Sys.Shadows

variable {mask : Byte}

theorem canService (h : s.Shadows mask) (hok : s.ZeroApart .canService) (hm : CanMove s t) :
    t.Shadows (s.can.marks mask) := by
  have hreader : t.reader = s.reader := hm.frame.1
  refine ⟨?_, ?_, ?_⟩
  · cases hm with
    | rxStore n f v hpc =>
        rw [hpc]
        cases n with
        | b0 => simp only [RunPc.marks, getLsbD_zero_set, decide_true, Bool.or_true]
        | b1 =>
            have hv := h.can f v hpc
            simp only [RunPc.marks, getLsbD_zero_set, hv]
    | _ =>
        simp only [RunPc.marks, *]
        exact h.zero
  · intro f v hpc
    have hloaded : t.can.loadedRx = some v := by
      rw [hpc]
      rfl
    -- `canService` has just loaded the value, so it was not at a store.
    rcases hm.loadedRx hloaded with ⟨hv, -⟩
    have hmarks : s.can.marks mask = mask := by
      cases hm with
      | rxStore n f' w hpc' =>
          have hgo : (RunPc.goto (RunPc.afterRx n f')).loadedRx = none :=
            RunPc.goto_afterRx_of (P := fun p => p.loadedRx = none) n (fun _ _ => rfl)
              (fun _ => rfl) (fun _ _ => rfl) rfl rfl
          rw [hgo] at hloaded
          cases hloaded
      | _ => simp only [RunPc.marks, *]
    rw [hmarks, ← hv]
    exact h.zero
  · intro buf now v hp
    -- The reader is at its store for buffer 1; only a store for buffer 0 makes its value stale.
    have hp' : s.reader = some (.store .b1 buf now v) := hreader ▸ hp
    have hv := h.reader buf now v hp'
    cases hpc : s.can with
    | rxStore n f w =>
        cases n with
        | b0 => exact absurd ⟨by rw [hpc]; rfl, by rw [hp']; rfl⟩ hok
        | b1 => simpa only [RunPc.marks, getLsbD_zero_set, reduceCtorEq, decide_false,
            Bool.or_false] using hv
    | _ => exact hv

theorem readerStep (h : s.Shadows mask) (hok : s.ZeroApart .reader) (hm : ReaderMove s t)
    {p : ReadPc} (hp : s.reader = some p) : t.Shadows (p.drops mask) := by
  have hcan : t.can = s.can := hm.frame.1
  refine ⟨?_, ?_, ?_⟩
  · cases hm with
    | store n buf now v a k hpc hread =>
        cases hp.symm.trans hpc
        cases n with
        | b0 =>
            simp only [ReadPc.drops, getLsbD_zero_drop, decide_true, Bool.not_true,
              Bool.and_false]
        | b1 =>
            have hv := h.reader buf now v hpc
            simp only [ReadPc.drops, getLsbD_zero_drop, hv]
    | take buf hpc hsem => cases hp.symm.trans hpc; exact h.zero
    | stamp buf hpc => cases hp.symm.trans hpc; exact h.zero
    | test buf now hpc => cases hp.symm.trans hpc; exact h.zero
    | load n buf now hpc => cases hp.symm.trans hpc; exact h.zero
    | reading n now a k a' k' hpc hrest => cases hp.symm.trans hpc; exact h.zero
    | done n now a k x hpc hrest => cases hp.symm.trans hpc; exact h.zero
  · intro f v hpc
    have hpc' : s.can = .rxStore .b1 f v := hcan ▸ hpc
    have hv := h.can f v hpc'
    cases p with
    | store n buf now w =>
        cases n with
        -- The store for buffer 0 that would make the value of `canService` stale is excluded.
        | b0 => exact absurd ⟨by rw [hp]; rfl, by rw [hpc']; rfl⟩ hok
        | b1 => simpa only [ReadPc.drops, getLsbD_zero_drop, reduceCtorEq, decide_false,
            Bool.not_false, Bool.and_true] using hv
    | _ => exact hv
  · intro buf now v hp'
    have hloaded : t.readerLoaded = some v := by
      rw [readerLoaded, hp']
      rfl
    rcases hm.loadedRx hloaded with ⟨hv, -⟩
    -- The value has just been loaded, so the step was not the store itself.
    have hdrops : p.drops mask = mask := by
      cases hm with
      | store n buf' now' w a k hpc hread => cases hp'
      | take buf' hpc hsem => cases hp.symm.trans hpc; rfl
      | stamp buf' hpc => cases hp.symm.trans hpc; rfl
      | test buf' now' hpc => cases hp.symm.trans hpc; rfl
      | load n buf' now' hpc => cases hp.symm.trans hpc; rfl
      | reading n now' a k a' k' hpc hrest => cases hp.symm.trans hpc; rfl
      | done n now' a k x hpc hrest => cases hp.symm.trans hpc; rfl
    rw [hdrops, ← hv]
    exact h.zero

theorem step {l : Label} (h : s.Shadows mask) (hok : s.ZeroApart l)
    (hstep : Sys.step l s = some t) : t.Shadows (s.nextMask mask l) := by
  rcases Option.map_eq_some_iff.1 hstep with ⟨u, hmove, rfl⟩
  have hu : u.Shadows (s.nextMask mask l) := by
    cases l with
    | canService => exact h.canService hok (canMove_of_canStep hmove)
    | reader =>
        have hm := readerMove_of_readerStep hmove
        rcases hm.inCall with ⟨p, hp⟩
        simp only [nextMask, hp]
        exact h.readerStep hok hm hp
    | receive buf =>
        rcases eq_of_receive hmove with ⟨-, rfl⟩
        exact ⟨h.zero, h.can, by rintro _ _ _ ⟨⟩⟩
    | _ =>
        have hsame := sameReceive rfl hmove
        refine ⟨?_, ?_, ?_⟩
        · rw [hsame.pendingRxBuf]
          exact h.zero
        · rw [hsame.can]
          exact h.can
        · rw [hsame.reader]
          exact h.reader
  exact ⟨hu.zero, hu.can, hu.reader⟩

theorem boot (r : Regs) : (Sys.boot r).Shadows 0#8 := by
  refine ⟨rfl, ?_, ?_⟩
  · intro f v hpc
    cases hpc
  · intro buf now v hp
    cases hp

end Sys.Shadows

/-! ## Runs -/

/-- No update of the mask is lost, while no frame is loaded over one that has not been returned. -/
def AlwaysKeepsMask : Prop :=
  ∀ (r : Regs) (ls : List Label) (t : Sys), Run Sys.step Spaced (Sys.boot r) ls t → t.KeepsMask

/-- The reader clears bit 0 between the load and the store with which `canService` sets bit 1, and
calls again. -/
def staleStoreSchedule : List Label :=
  .canService :: .arrive (oneByte 0x10#8 0x11#8) :: .canService :: .canService ::
    .arrive (oneByte 0x20#8 0x22#8) :: List.replicate 6 .canService ++
    .receive (fun _ => 0#8) :: List.replicate 4 .reader ++ List.replicate 6 .canService ++
    List.replicate 5 .reader ++ .canService :: .canService ::
    .receive (fun _ => 0#8) :: List.replicate 5 .reader

/-- A read under way, in a buffer that has no frame to return. -/
def readsEmpty (t : Sys) : Bool :=
  match t.reader with
  | some (.reading n _ _ _) => (unread n t.trace).isNone
  | _ => false

/-- The second call reads the first frame again. -/
theorem not_alwaysKeepsMask : ¬ AlwaysKeepsMask := by
  intro h
  rcases exists_run_of_exec Sys.step Spaced (Sys.boot rolloverRegs) staleStoreSchedule readsEmpty
    (by decide +kernel) with ⟨t, hrun, hempty⟩
  have hkeeps := h _ _ _ hrun
  -- The bit of RXB0 has come back, so the second call reads a buffer with nothing to return.
  unfold readsEmpty at hempty
  split at hempty
  · rename_i n now a k hreader
    rcases hkeeps.reads n now a k hreader with ⟨img, himg, -⟩
    rw [himg] at hempty
    cases hempty
  · cases hempty

/-- The runs in which no update of the mask is lost are those in which neither task stores while the
other is between its load and its store. -/
theorem keepsMask_iff_storesApart {r : Regs} {ls : List Label} {t : Sys} :
    (Run Sys.step (fun s l => Spaced s l ∧ s.KeepsMask) (Sys.boot r) ls t ∧ t.KeepsMask) ↔
      Run Sys.step (fun s l => Spaced s l ∧ s.StoresApart l) (Sys.boot r) ls t := by
  refine Run.stays_within_iff (fun s hs => hs.keepsMask) ?_ ?_ (Sys.MaskInv.boot r)
  · intro s l u hI hspaced hstep hok
    exact hI.step hspaced hok hstep
  · intro s l u hI _ hstep hu
    exact hI.storesApart_of_keepsMask hstep hu

end Mcp2515Task
end PicoCppSdk
