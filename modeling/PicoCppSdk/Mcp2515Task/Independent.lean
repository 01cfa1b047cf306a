import PicoCppSdk.Mcp2515Task.Handover
import PicoCppSdk.Mcp2515Task.Order

/-!
# Independent — reception in the mode without rollover

With `RxBufferType::Independent` RXB0 accepts every frame and hands none on, so that RXB1 stays
empty.  What goes wrong with two buffers, a call that takes the wrong one first and a store to the
mask for one buffer that undoes the other's, cannot happen then: that no frame is loaded over one
which has not been returned is all that is needed.
-/

namespace PicoCppSdk
namespace Mcp2515Task

open Atomic Mcp2515 Transition

variable {s t : Sys} {l : Label}

/-! ## One buffer -/

/-- Frames come to RXB0 only. -/
structure Sys.OneBuffer (s : Sys) : Prop where
  noRollover : s.regs RXB0CTRL &&& BUKT_ROLLOVER = 0#8
  loads : ∀ p ∈ loaded s.trace, p.1 = .b0
  empty : unread .b1 s.trace = none

namespace Sys.OneBuffer

theorem target (h : s.OneBuffer) {n : RxBuf} (hn : s.rxTarget = some n) : n = .b0 := by
  unfold rxTarget at hn
  split at hn
  · exact (Option.some.inj hn).symm
  · rw [if_neg fun hroll => hroll.1 h.noRollover] at hn
    cases hn

/-- The history after a step. -/
theorem trace_step (h : s.OneBuffer) (hmove : s.move l = some t) :
    (∀ p ∈ loaded t.trace, p.1 = .b0) ∧ unread .b1 t.trace = none := by
  have hsame : t.trace = s.trace →
      (∀ p ∈ loaded t.trace, p.1 = .b0) ∧ unread .b1 t.trace = none := by
    intro htrace
    rw [htrace]
    exact ⟨h.loads, h.empty⟩
  cases l with
  | canService => exact hsame (canMove_of_canStep hmove).frame.2.2.1
  | reader =>
      cases readerMove_of_readerStep hmove with
      | done n now a k x hpc hrest =>
          refine ⟨h.loads, ?_⟩
          -- A return takes a frame away, of whichever buffer.
          simp only [unread, h.empty, ite_self]
      | _ => exact hsame rfl
  | sender => exact hsame (senderMove_of_senderStep hmove).frame.2.2.2.2
  | receive buf =>
      rcases eq_of_receive hmove with ⟨-, rfl⟩
      exact hsame rfl
  | submit c =>
      rcases eq_of_submit hmove with ⟨-, rfl⟩
      exact ⟨h.loads, h.empty⟩
  | irqHandler now =>
      rcases eq_of_irqHandler hmove with ⟨-, rfl⟩
      exact hsame rfl
  | arrive img =>
      cases hmove
      cases hn : s.rxTarget with
      | some n =>
          obtain rfl := h.target hn
          simp only [arrive, hn]
          refine ⟨?_, h.empty⟩
          intro p hp
          rcases List.mem_append.1 hp with hp | hp
          · exact h.loads p hp
          · rw [List.mem_singleton.1 hp]
      | none =>
          simp only [arrive, hn]
          exact ⟨h.loads, h.empty⟩
  | complete =>
      rw [(completed_of_complete hmove).trace]
      exact ⟨h.loads, h.empty⟩
  | raise flags eflg =>
      cases hmove
      exact hsame rfl

theorem step (h : s.OneBuffer) (hcalls : s.InCalls) (hwrites : s.SenderWrites)
    (hstep : Sys.step l s = some t) : t.OneBuffer := by
  rcases Option.map_eq_some_iff.1 hstep with ⟨u, hmove, rfl⟩
  have htrace := h.trace_step hmove
  refine ⟨?_, htrace.1, htrace.2⟩
  change u.regs RXB0CTRL &&& BUKT_ROLLOVER = 0#8
  rw [move_fixed fixed_rxb0ctrl hcalls hwrites hmove, h.noRollover]

end Sys.OneBuffer

/-! ## Nothing happens to the second buffer -/

/-- The second buffer holds no frame, in the controller or on its way to a reader. -/
structure Sys.SecondIdle (s : Sys) : Prop where
  can : s.can.taking .b1 = false
  mask : s.pendingRxBuf.getLsbD (index .b1) = false

theorem Sys.OneBuffer.secondIdle (h : s.OneBuffer) (hinv : s.MaskInv) : s.SecondIdle := by
  have hplace := hinv.delivery.counts.place .b1
  rw [h.empty, Option.isSome_none, Bool.toNat_false] at hplace
  refine ⟨?_, ?_⟩
  · cases htaking : s.can.taking .b1 with
    | false => rfl
    | true =>
        rw [htaking, Bool.toNat_true] at hplace
        omega
  · cases hmask : s.pendingRxBuf.getLsbD (index .b1) with
    | false => rfl
    | true =>
        rw [hmask, Bool.toNat_true] at hplace
        omega

namespace Sys.SecondIdle

theorem can_store (h : s.SecondIdle) : s.can.stores .b1 = false := by
  have hcan := h.can
  cases hpc : s.can with
  | rxStore n f v =>
      rw [hpc] at hcan
      cases n with
      | b0 => rfl
      | b1 => simp [RunPc.taking] at hcan
  | _ => rfl

/-- A call chooses a buffer whose bit is set. -/
theorem reader_store (h : s.SecondIdle) (hinv : s.MaskInv) :
    s.reader.any (ReadPc.stores .b1) = false := by
  cases hreader : s.reader with
  | none => rfl
  | some p =>
      cases p with
      | store n buf now v =>
          cases n with
          | b0 => rfl
          | b1 =>
              have hset := hinv.delivery.counts.chosen .b1 (by rw [hreader]; rfl)
              rw [h.mask] at hset
              cases hset
      | _ => rfl

/-- The two tasks do not get in each other's way at the mask. -/
theorem storesApart (h : s.SecondIdle) (hinv : s.MaskInv) (l : Label) : s.StoresApart l := by
  have hapart : ¬ s.Overlap := by
    intro hboth
    rcases hinv.overlap hboth with ⟨n, f, m, buf, now, hcan, hreader, hne, -, -⟩
    cases n with
    | b1 =>
        have hstore := h.can_store
        rw [hcan] at hstore
        cases hstore
    | b0 =>
        -- Then the reader is at the other buffer.
        have hm : m = .b1 := by
          cases m with
          | b0 => exact absurd rfl hne
          | b1 => rfl
        have hstore := h.reader_store hinv
        rw [hreader, hm] at hstore
        cases hstore
  cases l with
  | canService => exact hapart
  | reader => exact hapart
  | _ => trivial

theorem zeroApart (h : s.SecondIdle) (hinv : s.MaskInv) (l : Label) : s.ZeroApart l := by
  cases l with
  | canService =>
      rintro ⟨-, hreader⟩
      rw [h.reader_store hinv] at hreader
      cases hreader
  | reader =>
      rintro ⟨-, hcan⟩
      rw [h.can_store] at hcan
      cases hcan
  | _ => trivial

end Sys.SecondIdle

/-! ## Runs -/

/-- What holds in every run in which the frames are spaced. -/
structure Sys.IndependentInv (s : Sys) : Prop where
  oneBuffer : s.OneBuffer
  calls : s.InCalls
  mask : s.MaskInv
  order : ∃ mask, s.OrderInv mask

namespace Sys.IndependentInv

theorem keepsOrder (h : s.IndependentInv) (l : Label) : s.KeepsOrder l := by
  refine ⟨(h.oneBuffer.secondIdle h.mask).zeroApart h.mask l, ?_⟩
  rintro - ⟨-, -, hold⟩
  rcases h.order with ⟨mask, hinv⟩
  have hunread := hinv.inQueue.queue.isSome_of_oldest hold
  rw [h.oneBuffer.empty] at hunread
  cases hunread

theorem step (h : s.IndependentInv) (hspaced : Spaced s l) (hstep : Sys.step l s = some t) :
    t.IndependentInv where
  oneBuffer := h.oneBuffer.step h.calls h.mask.delivery.writes hstep
  calls := h.calls.step hstep
  mask := h.mask.step hspaced ((h.oneBuffer.secondIdle h.mask).storesApart h.mask l) hstep
  order := by
    rcases h.order with ⟨mask, hinv⟩
    exact ⟨_, hinv.step hspaced (h.keepsOrder l) hstep⟩

theorem boot {r : Regs} (hmode : r RXB0CTRL &&& BUKT_ROLLOVER = 0#8) :
    (Sys.boot r).IndependentInv where
  oneBuffer := by
    refine ⟨?_, nofun, rfl⟩
    simp only [Sys.boot]
    rw [Regs.write_of_ne (by decide), Regs.write_of_ne (by decide), hmode]
  calls := .boot r
  mask := .boot r
  order := ⟨_, .boot r⟩

end Sys.IndependentInv

theorem unseen_spaced : Unseen Spaced where
  canService _ := trivial
  canAt _ _ l h := by cases l <;> exact h
  payloads _ l h := by
    cases l with
    | submit c => exact h
    | _ => trivial

namespace Startup

/-- In independent mode, from power-on: if no frame is loaded over one that has not been returned,
every call returns the oldest frame that waits, from RXB0, and no update of the mask is lost. -/
theorem independent_in_order {por : Reset} {z : Byte} {r : Regs} {row : BitTiming}
    {ls : List Label} {s : Startup}
    (hquiet : r CANINTF &&& r CANINTE = 0#8 ∨ r CANINTF &&& enabled = 0#8)
    (htx : r TXB0CTRL = 0#8)
    (h : Run (Startup.step por z) (Lift Spaced) (start r .configuration row .Independent) ls s)
    (hreturned : s.returned = true) :
    InOrder s.board.sys.trace ∧ (∀ p ∈ loaded s.board.sys.trace, p.1 = .b0) ∧
      ∀ n now a k, s.board.sys.reader = some (.reading n now a k) →
        n = .b0 ∧ ∃ img,
          unread .b0 s.board.sys.trace = some img ∧ Holds s.board.sys.regs .b0 img := by
  rcases exists_run_boot unseen_spaced hquiet htx h with ⟨v, ms, hrun, -, hahead⟩
  have hsys := (hahead hreturned).2.sys
  have hmode : (initialised por z row .Independent ⟨r, .configuration, .ignore⟩).regs RXB0CTRL &&&
      BUKT_ROLLOVER = 0#8 := by
    rw [rxb0ctrl_initialised]
    decide
  have hinv : v.IndependentInv :=
    hrun.invariant (fun s l t h hl hstep => h.step hl hstep) (.boot hmode)
  rcases hinv.order with ⟨mask, horder⟩
  rw [hsys]
  refine ⟨horder.inQueue.queue.inOrder, hinv.oneBuffer.loads, ?_⟩
  intro n now a k hreading
  rcases hinv.mask.keepsMask.reads n now a k hreading with ⟨img, hunread, hholds⟩
  cases n with
  | b0 => exact ⟨rfl, img, hunread, hholds⟩
  | b1 =>
      rw [hinv.oneBuffer.empty] at hunread
      cases hunread

/-- Two frames come once `initialInTask` has returned, and a call is at the second. -/
def twoFrames : List Label :=
  List.flatten
    [List.replicate 16 .initialInTask,
      [.other (.arrive (oneByte 0x10#8 0x11#8)), .other (.irqHandler 7)],
      List.replicate 12 (.other .canService),
      [.other (.receive fun _ => 0#8)], List.replicate 9 (.other .reader),
      [.other (.arrive (oneByte 0x20#8 0x22#8)), .other (.irqHandler 9)],
      List.replicate 9 (.other .canService),
      [.other (.receive fun _ => 0#8)], List.replicate 6 (.other .reader)]

theorem independent_in_order_two :
    ∃ s, Run (Startup.step resetValues 0#8) (Lift Spaced)
        (start powerOn .configuration (bitrateAddr .MHZ8 .KBPS125) .Independent) twoFrames s ∧
      (Mcp2515Task.returned s.board.sys.trace).length = 1 ∧
      InOrder s.board.sys.trace ∧ (∀ p ∈ loaded s.board.sys.trace, p.1 = .b0) ∧
      ∀ n now a k, s.board.sys.reader = some (.reading n now a k) →
        n = .b0 ∧ ∃ img,
          unread .b0 s.board.sys.trace = some img ∧ Holds s.board.sys.regs .b0 img := by
  rcases exists_run_of_exec (Startup.step resetValues 0#8) (Lift Spaced)
      (start powerOn .configuration (bitrateAddr .MHZ8 .KBPS125) .Independent) twoFrames
      (fun s => decide (s.returned = true ∧
        (Mcp2515Task.returned s.board.sys.trace).length = 1)) (by decide +kernel) with
    ⟨s, hrun, htest⟩
  rcases of_decide_eq_true htest with ⟨hreturned, hone⟩
  exact ⟨s, hrun, hone, independent_in_order (by decide) (by decide) hrun hreturned⟩

end Startup
end Mcp2515Task
end PicoCppSdk
