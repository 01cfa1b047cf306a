import PicoCppSdk.Spi.Interrupts

/-!
# Stage — the way of a DMA channel from one call to the next

The bits of a channel (its block, its pending bit, its semaphore, the place of the handler and of
the task) make up one of nine stages, and a step moves each channel from stage to stage.  On one
core only five of them occur.
-/

namespace PicoCppSdk
namespace Spi
namespace Interrupts

open Atomic Transition
open Completion (Chan)
open Dma (Callback Irq IsrPc Line lineOf)

variable {n : Nat} (pdMsToTicks : BitVec 32 → BitVec 32) (S : Setup n) (core : Core)

/-- The way of a channel of `dma_handler0` from one call to the next.  The last four are possible
only where the task does not wait for the end of the handler. -/
inductive Stage where
  | quiet
  /-- The block of the call is under way. -/
  | moving
  /-- The block is finished, and `damCallback` is still to be called. -/
  | due
  /-- The semaphore is given, and the acknowledge is to come. -/
  | answered
  /-- The semaphore waits for the task. -/
  | done
  /-- The task has taken the semaphore before the acknowledge. -/
  | early
  /-- The next block is under way before the acknowledge. -/
  | again
  /-- The next block is finished before the acknowledge. -/
  | late
  /-- The acknowledge has cleared the bit of the next block. -/
  | swallowed

/-- What a step does to a channel. -/
inductive Event where
  | start
  | finish
  | call
  | acknowledge
  | take

namespace Stage

def next : Stage → Option Event → Stage
  | .quiet, some .start => .moving
  | .moving, some .finish => .due
  | .due, some .call => .answered
  | .answered, some .acknowledge => .done
  | .done, some .take => .quiet
  | .answered, some .take => .early
  | .early, some .acknowledge => .quiet
  | .early, some .start => .again
  | .again, some .acknowledge => .moving
  | .again, some .finish => .late
  | .late, some .acknowledge => .swallowed
  | p, _ => p

def busy : Stage → Bool
  | .moving => true
  | .again => true
  | _ => false

def sem : Stage → Bool
  | .answered => true
  | .done => true
  | _ => false

def acknowledges : Stage → Bool
  | .answered => true
  | .early => true
  | .again => true
  | .late => true
  | _ => false

/-- A channel is pending from the end of its block to the acknowledge. -/
def pending : Stage → Bool
  | .due => true
  | p => p.acknowledges

/-- The call does not wait for the channel, or no longer. -/
def idle : Stage → Bool
  | .quiet => true
  | .early => true
  | _ => false

/-- A completion is lost, or is going to be. -/
def lost : Stage → Bool
  | .late => true
  | .swallowed => true
  | _ => false

/-- The stages on one core. -/
def ordered : Stage → Bool
  | .quiet => true
  | .moving => true
  | .due => true
  | .answered => true
  | .done => true
  | _ => false

@[simp] theorem next_none (p : Stage) : p.next none = p := by
  cases p <;> rfl

theorem lost_next {p : Stage} {e : Option Event} (h : p.lost = true) : (p.next e).lost = true := by
  cases p with
  | late =>
      cases e with
      | none => rfl
      | some e => cases e <;> rfl
  | swallowed => rfl
  | _ => cases h

/-- The only way to lose a completion. -/
theorem not_lost_next {p : Stage} {e : Option Event} (h : p.lost = false)
    (hok : ¬ (p = .again ∧ e = some .finish)) : (p.next e).lost = false := by
  cases e with
  | none => rwa [next_none]
  | some e =>
      cases p with
      | again =>
          cases e with
          | finish => exact absurd ⟨rfl, rfl⟩ hok
          | _ => rfl
      | late => cases h
      | swallowed => cases h
      | _ => cases e <;> rfl

theorem not_lost_of_ordered {p : Stage} (h : p.ordered = true) : p.lost = false := by
  cases p with
  | late => cases h
  | swallowed => cases h
  | _ => rfl

/-- A channel that is pending and not about to be acknowledged has no block under way. -/
theorem not_busy {p : Stage} (hpending : p.pending = true) (hack : p.acknowledges = false) :
    p.busy = false := by
  cases p with
  | moving => cases hpending
  | again => cases hack
  | _ => rfl

/-- The order is left only by a task that does not wait for the acknowledge. -/
theorem ordered_next {p : Stage} {e : Option Event} (h : p.ordered = true)
    (hok : ¬ (p.acknowledges = true ∧ e = some .take)) : (p.next e).ordered = true := by
  cases e with
  | none => rwa [next_none]
  | some e =>
      cases p with
      | answered =>
          cases e with
          | take => exact absurd ⟨rfl, rfl⟩ hok
          | _ => rfl
      | early => cases h
      | again => cases h
      | late => cases h
      | swallowed => cases h
      | _ => cases e <;> rfl

end Stage

/-- The task is before its take of the semaphore of `d`, and past the start. -/
def waits : Option Completion.Pc → Chan → Bool
  | some (.take .tx _), _ => true
  | some (.take .rx _), .rx => true
  | _, _ => false

namespace Sys

/-- The channel whose callback the handler is about to call. -/
def calling (s : Sys n) : Option (Fin n) := s.isr.bind IsrPc.calls

/-- The channel that the handler is about to acknowledge. -/
def acknowledging (s : Sys n) : Option (Fin n) := s.isr.bind IsrPc.acknowledges

/-- What the statement at `pc` does to the channel of `d`. -/
def taskEvent (pc : Option Completion.Pc) (d : Chan) : Option Event :=
  match pc with
  | some (.dmaStart _) => some .start
  | some (.take d' _) => if d' = d then some .take else none
  | _ => none

/-- What a step does to the channel of `d`. -/
def event (s : Sys n) (d : Chan) : Label → Option Event
  | .beginCall => taskEvent s.spi.pc d
  | .task => taskEvent s.spi.pc d
  | .finish d' => if d' = d then some .finish else none
  | .handler =>
      if s.calling = some (S.channel d) then some .call
      else if s.acknowledging = some (S.channel d) then some .acknowledge
      else none
  | _ => none

/-- The channel of `d` is at stage `p`. -/
structure At (s : Sys n) (d : Chan) (p : Stage) : Prop where
  block : (s.spi.chan d).block = if p.busy then some s.spi.index else none
  sem : (s.spi.chan d).sem = p.sem
  pending : S.channel d ∈ s.irq.pending .irq0 ↔ p.pending = true
  calling : s.calling = some (S.channel d) → p = .due
  acknowledging : s.acknowledging = some (S.channel d) ↔ p.acknowledges = true
  idle : p.idle = !waits s.spi.pc d
  finished : p.idle = false → p.busy = false → .finished d s.spi.index ∈ s.spi.history

end Sys

section Stages

variable {pdMsToTicks S core} {s t : Sys n} {u : Completion.Sys} {d : Chan} {p : Stage}

theorem calling_of_isr {q : IsrPc n Callee} (h : s.isr = some q) : s.calling = q.calls := by
  rw [Sys.calling, h, Option.bind_some]

theorem acknowledging_of_isr {q : IsrPc n Callee} (h : s.isr = some q) :
    s.acknowledging = q.acknowledges := by
  rw [Sys.acknowledging, h, Option.bind_some]

theorem channel_ne {d d' : Chan} (h : d ≠ d') : S.channel d ≠ S.channel d' := by
  cases d with
  | tx =>
      cases d' with
      | tx => exact absurd rfl h
      | rx => exact S.distinct
  | rx =>
      cases d' with
      | tx => exact S.distinct.symm
      | rx => exact absurd rfl h

/-- A step that leaves the channel and the task's wait alone. -/
theorem Sys.At.congr (h : s.At S d p) (hblock : (t.spi.chan d).block = (s.spi.chan d).block)
    (hsem : (t.spi.chan d).sem = (s.spi.chan d).sem) (hindex : t.spi.index = s.spi.index)
    (hpending : S.channel d ∈ t.irq.pending .irq0 ↔ S.channel d ∈ s.irq.pending .irq0)
    (hcalling : t.calling = some (S.channel d) → p = .due)
    (hack : t.acknowledging = some (S.channel d) ↔ s.acknowledging = some (S.channel d))
    (hwaits : waits t.spi.pc d = waits s.spi.pc d)
    (hhistory : ∀ e ∈ s.spi.history, e ∈ t.spi.history) : t.At S d p where
  block := by rw [hblock, h.block, hindex]
  sem := hsem.trans h.sem
  pending := hpending.trans h.pending
  calling := hcalling
  acknowledging := hack.trans h.acknowledging
  idle := by rw [hwaits, h.idle]
  finished := by
    rw [hindex]
    exact fun hidle hbusy => hhistory _ (h.finished hidle hbusy)

/-- The same for a statement of the task. -/
theorem Sys.At.congrTask (h : s.At S d p) (hblock : (u.chan d).block = (s.spi.chan d).block)
    (hsem : (u.chan d).sem = (s.spi.chan d).sem) (hindex : u.index = s.spi.index)
    (hwaits : waits u.pc d = waits s.spi.pc d) (hhistory : ∀ e ∈ s.spi.history, e ∈ u.history) :
    Sys.At S { s with spi := u } d p :=
  h.congr hblock hsem hindex Iff.rfl h.calling Iff.rfl hwaits hhistory

theorem Sys.At.begin (h : s.At S d p) {c : Completion.Call} {cs : List Completion.Call}
    (hpc : s.spi.pc = none) :
    Sys.At S { s with spi := { s.spi with
      pc := some (.dmaWrite c), index := s.spi.index + 1, calls := cs, waited := 0 } } d p := by
  have hidle : p.idle = true := by
    rw [h.idle, hpc]
    rfl
  have hbusy : p.busy = false := by
    cases p with
    | moving => cases hidle
    | again => cases hidle
    | _ => rfl
  refine ⟨?_, h.sem, h.pending, h.calling, h.acknowledging, hidle, ?_⟩
  · have hblock := h.block
    rw [hbusy] at hblock ⊢
    exact hblock
  · intro hnot
    cases hidle.symm.trans hnot

theorem Sys.At.start (h : s.At S d p) {c : Completion.Call} (hpc : s.spi.pc = some (.dmaStart c)) :
    Sys.At S { s with spi := { s.spi with
      chan := s.spi.startChannel, pc := some (.take .tx c), waited := 0 } } d
      (p.next (some .start)) := by
  have hidle : p.idle = true := by
    rw [h.idle, hpc]
    rfl
  -- The channel has no block, so it begins that of the call.
  have hblock := h.block
  cases p with
  | quiet =>
      refine ⟨?_, h.sem, h.pending, ?_, h.acknowledging, rfl, ?_⟩
      · simp [Completion.Sys.startChannel, hblock, Stage.next, Stage.busy]
      · exact fun hcall => by cases h.calling hcall
      · exact fun _ hnot => by cases hnot
  | early =>
      refine ⟨?_, h.sem, h.pending, ?_, h.acknowledging, rfl, ?_⟩
      · simp [Completion.Sys.startChannel, hblock, Stage.next, Stage.busy]
      · exact fun hcall => by cases h.calling hcall
      · exact fun _ hnot => by cases hnot
  | _ => cases hidle

/-- The task takes the semaphore of the channel. -/
theorem Sys.At.take (h : s.At S d p) {c : Completion.Call} (hpc : s.spi.pc = some (.take d c))
    (hsem : (s.spi.chan d).sem = true) :
    Sys.At S { s with spi :=
      Completion.afterTake d c (s.spi.setChan d { s.spi.chan d with sem := false }) } d
      (p.next (some .take)) := by
  have hgiven : p.sem = true := h.sem ▸ hsem
  have hblock : ((Completion.afterTake d c
      (s.spi.setChan d { s.spi.chan d with sem := false })).chan d).block =
        (s.spi.chan d).block := by
    cases d <;> rfl
  have hempty : ((Completion.afterTake d c
      (s.spi.setChan d { s.spi.chan d with sem := false })).chan d).sem = false := by
    cases d <;> rfl
  have hwaits : waits (Completion.afterTake d c
      (s.spi.setChan d { s.spi.chan d with sem := false })).pc d = false := by
    cases d <;> rfl
  cases p with
  | answered =>
      refine ⟨hblock.trans h.block, hempty, h.pending, ?_, h.acknowledging, ?_, ?_⟩
      · exact fun hcall => by cases h.calling hcall
      · exact (congrArg (! ·) hwaits).symm
      · exact fun hnot => by cases hnot
  | done =>
      refine ⟨hblock.trans h.block, hempty, h.pending, ?_, h.acknowledging, ?_, ?_⟩
      · exact fun hcall => by cases h.calling hcall
      · exact (congrArg (! ·) hwaits).symm
      · exact fun hnot => by cases hnot
  | _ => cases hgiven

/-- The task takes the semaphore of the other channel. -/
theorem Sys.At.takeOther (h : s.At S d p) {d' : Chan} (hne : d' ≠ d) {c : Completion.Call}
    (hpc : s.spi.pc = some (.take d' c)) (x : Completion.Channel) :
    Sys.At S { s with spi := Completion.afterTake d' c (s.spi.setChan d' x) } d p := by
  have hchan : (Completion.afterTake d' c (s.spi.setChan d' x)).chan d = s.spi.chan d := by
    cases d' <;> exact Function.update_of_ne hne.symm _ _
  refine h.congrTask (by rw [hchan]) (by rw [hchan]) ?_ ?_ ?_
  · cases d' <;> rfl
  · rw [hpc]
    cases d' with
    | tx =>
        cases d with
        | tx => exact absurd rfl hne
        | rx => rfl
    | rx =>
        cases d with
        | tx => rfl
        | rx => exact absurd rfl hne
  · cases d' with
    | tx => exact fun e => id
    | rx => exact fun e => List.mem_cons_of_mem _

/-- Calls that wait as long as it takes. -/
structure Patient (pdMsToTicks : BitVec 32 → BitVec 32) (u : Completion.Sys) : Prop where
  calls : ∀ c ∈ u.calls, c.Patient pdMsToTicks
  current : ∀ q, u.pc = some q → q.call.Patient pdMsToTicks

theorem Sys.At.taskMove (h : s.At S d p) (hpatient : Patient pdMsToTicks s.spi)
    (hmove : TaskMove pdMsToTicks s.spi u) :
    Sys.At S { s with spi := u } d (p.next (Sys.taskEvent s.spi.pc d)) := by
  cases hmove with
  | begin c cs hpc hcalls =>
      rw [hpc]
      exact (Stage.next_none p).symm ▸ h.begin hpc
  | dmaWrite c hpc =>
      rw [hpc]
      refine (Stage.next_none p).symm ▸ h.congrTask ?_ ?_ rfl ?_ fun e => id
      · cases d <;> rfl
      · cases d <;> rfl
      · rw [hpc]
        rfl
  | dmaRead c hpc =>
      rw [hpc]
      refine (Stage.next_none p).symm ▸ h.congrTask ?_ ?_ rfl ?_ fun e => id
      · cases d <;> rfl
      · cases d <;> rfl
      · rw [hpc]
        rfl
  | dmaStart c hpc =>
      rw [hpc]
      exact h.start hpc
  | take d' c hpc hsem =>
      rw [hpc, Sys.taskEvent]
      by_cases hd : d' = d
      · subst hd
        rw [if_pos rfl]
        exact h.take hpc hsem
      · rw [if_neg hd, Stage.next_none]
        exact h.takeOther hd hpc _
  | giveUp d' c hpc hexpired =>
      have hpc' : c.Patient pdMsToTicks := hpatient.current _ hpc
      cases hpc'.not_expired.symm.trans hexpired

theorem mem_raise {c : Fin n} {L : Line} :
    c ∈ s.raise S d L ↔ c ∈ s.irq.pending L ∨ (c = S.channel d ∧ L = lineOf (S.channel d)) := by
  have hon := S.routed d L
  by_cases hL : L = lineOf (S.channel d)
  · rw [Sys.raise, if_pos (hon.2 hL), Finset.mem_insert, or_comm]
    simp [hL]
  · rw [Sys.raise, if_neg fun hmem => hL (hon.1 hmem)]
    simp [hL]

/-- A channel finishes its block. -/
theorem Sys.At.finish (h : s.At S d p) (hline : ∀ d, lineOf (S.channel d) = .irq0) {d' : Chan}
    {k : Nat} (hblock : (s.spi.chan d').block = some k) :
    Sys.At S { s with
      irq := { s.irq with pending := s.raise S d' }
      spi := { s.spi.setChan d' { s.spi.chan d' with block := none } with
        history := .finished d' k :: s.spi.history } } d
      (p.next (s.event S d (.finish d'))) := by
  have hpending : ∀ c, c ∈ s.raise S d' .irq0 ↔
      c ∈ s.irq.pending .irq0 ∨ c = S.channel d' := by
    intro c
    rw [mem_raise, hline d', eq_self, and_true]
  by_cases hd : d' = d
  · subst hd
    simp only [Sys.event, if_true]
    have hin := (hpending _).2 (Or.inr rfl)
    have hown := h.block
    rw [hblock] at hown
    -- The block was that of the current call.
    cases p with
    | moving =>
        cases hown
        exact
          { block := by simp [Completion.Sys.setChan, Stage.next, Stage.busy]
            sem := by simpa [Completion.Sys.setChan, Stage.next, Stage.sem] using h.sem
            pending := ⟨fun _ => rfl, fun _ => hin⟩
            calling := fun _ => rfl
            acknowledging := h.acknowledging
            idle := h.idle
            finished := fun _ _ => List.mem_cons_self }
    | again =>
        cases hown
        exact
          { block := by simp [Completion.Sys.setChan, Stage.next, Stage.busy]
            sem := by simpa [Completion.Sys.setChan, Stage.next, Stage.sem] using h.sem
            pending := ⟨fun _ => rfl, fun _ => hin⟩
            calling := fun hcall => by cases h.calling hcall
            acknowledging := h.acknowledging
            idle := h.idle
            finished := fun _ _ => List.mem_cons_self }
    | _ => cases hown
  · have hchan : Function.update s.spi.chan d' { s.spi.chan d' with block := none } d =
        s.spi.chan d := Function.update_of_ne (Ne.symm hd) _ _
    simp only [Sys.event, if_neg hd, Stage.next_none]
    refine h.congr (congrArg _ hchan) (congrArg _ hchan) rfl ?_ h.calling Iff.rfl rfl ?_
    · exact (hpending _).trans (or_iff_left (channel_ne (Ne.symm hd)))
    · exact fun e => List.mem_cons_of_mem _

theorem Sys.At.interrupt (h : s.At S d p) {L : Line} (hisr : s.isr = none) :
    Sys.At S { s with isr := IsrPc.entered (IsrPc.fromLoop (L.channels n)) } d p := by
  refine h.congr rfl rfl rfl Iff.rfl ?_ ?_ rfl fun e => id
  · simp [Sys.calling]
  · simp [Sys.acknowledging, hisr]

section Handler

variable {c : Fin n} {cs : List (Fin n)}

theorem Sys.At.status (h : s.At S d p) (hisr : s.isr = some (.status c cs)) :
    Sys.At S { s with
      isr := IsrPc.entered
        (IsrPc.fromStatus S.table c cs (decide (c ∈ s.irq.pending .irq0))) } d
      (p.next (s.event S d .handler)) := by
  have hcalls := calling_of_isr hisr
  have hacks := acknowledging_of_isr hisr
  have hevent : s.event S d .handler = none := by
    simp only [Sys.event, hcalls, hacks]
    rfl
  have hnot : ¬ p.acknowledges = true := by
    intro hack
    cases hacks.symm.trans (h.acknowledging.2 hack)
  rw [hevent, Stage.next_none]
  refine h.congr rfl rfl rfl Iff.rfl ?_ ?_ rfl fun e => id
  · intro hcall
    rcases IsrPc.calls_fromStatus hcall with ⟨rfl, hpending⟩
    -- Pending, and not between callback and acknowledge.
    have hset := h.pending.1 (of_decide_eq_true hpending)
    cases p with
    | due => rfl
    | answered => exact absurd rfl hnot
    | early => exact absurd rfl hnot
    | again => exact absurd rfl hnot
    | late => exact absurd rfl hnot
    | _ => cases hset
  · simp [Sys.acknowledging, hisr, IsrPc.acknowledges]

/-- The handler calls `damCallback` for a channel of the object. -/
theorem Sys.At.call (h : s.At S d p) {d' : Chan}
    (hisr : s.isr = some (.call .damCallback (S.channel d') cs)) :
    Sys.At S
      { irq := { s.irq with
          calls := s.irq.calls ++ [(.damCallback, (S.table (S.channel d')).param)] }
        isr := some (.acknowledge (S.channel d') cs)
        spi := gives (.call .damCallback (S.table (S.channel d')).param : Dma.Act n Callee Param)
          s.spi } d
      (p.next (s.event S d .handler)) := by
  have hcalls : s.calling = some (S.channel d') := calling_of_isr hisr
  rw [gives_registered]
  by_cases hd : d' = d
  · subst hd
    -- The callback of this channel: what was due is answered.
    have hdue := h.calling hcalls
    subst hdue
    simp only [Sys.event, hcalls, if_true]
    exact
      { block := by simpa [Completion.Sys.setChan, Stage.next, Stage.busy] using h.block
        sem := by simp [Completion.Sys.setChan, Stage.next, Stage.sem]
        pending := h.pending
        calling := fun hcall => by cases hcall
        acknowledging := ⟨fun _ => rfl, fun _ => rfl⟩
        idle := h.idle
        finished := h.finished }
  · have hne : S.channel d' ≠ S.channel d := channel_ne hd
    have hchan : Function.update s.spi.chan d' { s.spi.chan d' with sem := true } d =
        s.spi.chan d := Function.update_of_ne (Ne.symm hd) _ _
    have hevent : s.event S d .handler = none := by
      simp [Sys.event, hcalls, acknowledging_of_isr hisr, IsrPc.acknowledges, hne]
    rw [hevent, Stage.next_none]
    refine h.congr (congrArg _ hchan) (congrArg _ hchan) rfl Iff.rfl ?_ ?_ rfl fun e => id
    · exact fun hcall => by cases hcall
    · simp [Sys.acknowledging, hisr, IsrPc.acknowledges, hne]

theorem Sys.At.acknowledge (h : s.At S d p) (hisr : s.isr = some (.acknowledge c cs)) :
    Sys.At S { s with
      irq := { s.irq with
        pending := Function.update s.irq.pending .irq0 ((s.irq.pending .irq0).erase c) }
      isr := IsrPc.entered (IsrPc.fromLoop cs) } d
      (p.next (s.event S d .handler)) := by
  have hcalls : s.calling = none := calling_of_isr hisr
  have hacks : s.acknowledging = some c := acknowledging_of_isr hisr
  by_cases hd : c = S.channel d
  · subst hd
    -- The bit is cleared, whether or not it stands for the block that was answered.
    have hack := h.acknowledging.1 hacks
    simp only [Sys.event, hcalls, hacks, reduceCtorEq, if_false, if_true]
    have hnext : (p.next (some .acknowledge)).busy = p.busy ∧
        (p.next (some .acknowledge)).sem = p.sem ∧
          (p.next (some .acknowledge)).pending = false ∧
            (p.next (some .acknowledge)).acknowledges = false ∧
              (p.next (some .acknowledge)).idle = p.idle := by
      cases p with
      | answered => exact ⟨rfl, rfl, rfl, rfl, rfl⟩
      | early => exact ⟨rfl, rfl, rfl, rfl, rfl⟩
      | again => exact ⟨rfl, rfl, rfl, rfl, rfl⟩
      | late => exact ⟨rfl, rfl, rfl, rfl, rfl⟩
      | _ => cases hack
    rcases hnext with ⟨hbusy, hsem, hpending, hacknowledges, hidle⟩
    exact
      { block := by rw [hbusy]; exact h.block
        sem := by rw [hsem]; exact h.sem
        pending := by simp [hpending]
        calling := by simp [Sys.calling]
        acknowledging := by simp [Sys.acknowledging, hacknowledges]
        idle := by rw [hidle]; exact h.idle
        finished := by rw [hbusy, hidle]; exact h.finished }
  · have hne : S.channel d ≠ c := Ne.symm hd
    have hevent : s.event S d .handler = none := by
      simp [Sys.event, hcalls, hacks, hd]
    rw [hevent, Stage.next_none]
    refine h.congr rfl rfl rfl ?_ ?_ ?_ rfl fun e => id
    · simp [hne]
    · simp [Sys.calling]
    · simp [Sys.acknowledging, hisr, IsrPc.acknowledges, hd]

end Handler

end Stages

end Interrupts
end Spi
end PicoCppSdk
