import PicoCppSdk.Foundation.Program
import PicoCppSdk.Foundation.Transition
import Mathlib.Logic.Function.Basic

/-!
# Completion — the two semaphores behind a DMA transfer

`SPI::transfer` starts both channels with `dmaStart` and then takes the binary semaphore of each.
The interrupt of a channel that has finished its block gives its semaphore.  Both takes have the
caller's time-out, and their results are dropped: a call that has waited long enough goes on as if
its block were finished, and the completion comes during a later call.

`pdMsToTicks` is the kernel's conversion of milliseconds; a wait of `portMAX_DELAY` ticks does not
end.  Time is the number of ticks that the task has spent in its current wait.
-/

namespace PicoCppSdk
namespace Spi
namespace Completion

open Atomic Transition

/-! ## `SPI::transfer` with DMA -/

/-- The channels `dmaTx` and `dmaRx`, with `dmaTxSemaphore` and `dmaRxSemaphore`. -/
inductive Chan where
  | tx
  | rx
  deriving DecidableEq

structure Call where
  size : BitVec 16
  timeoutMs : BitVec 32

def portMAX_DELAY : BitVec 32 := 0xFFFFFFFF#32

inductive Act where
  | setTransferCount (d : Chan) (count : BitVec 16)
  | startChannelMask
  | xSemaphoreTake (d : Chan) (ticks : BitVec 32)

/-- `xSemaphoreTake` answers whether it got the semaphore. -/
abbrev Act.Ans : Act → Type
  | .xSemaphoreTake _ _ => Bool
  | _ => Unit

abbrev Code (α : Type) := Prog Act Act.Ans α

def dmaWrite (size : BitVec 16) : Code Unit := .act (.setTransferCount .tx size) .ret

def dmaRead (size : BitVec 16) : Code Unit := .act (.setTransferCount .rx size) .ret

/-- `dma_start_channel_mask((1u << dmaTx) | (1u << dmaRx))` -/
def dmaStart : Code Unit := .act .startChannelMask .ret

def xSemaphoreTake (d : Chan) (ticks : BitVec 32) : Code Bool :=
  .act (.xSemaphoreTake d ticks) .ret

variable (pdMsToTicks : BitVec 32 → BitVec 32)

def transfer (c : Call) : Code (BitVec 16) := do
  dmaWrite c.size
  dmaRead c.size
  dmaStart
  let _ ← xSemaphoreTake .tx (pdMsToTicks c.timeoutMs)
  let _ ← xSemaphoreTake .rx (pdMsToTicks c.timeoutMs)
  pure c.size

/-- The control points of a call, by the statement that comes next. -/
inductive Pc where
  | dmaWrite (c : Call)
  | dmaRead (c : Call)
  | dmaStart (c : Call)
  | take (d : Chan) (c : Call)

namespace Pc

def act : Pc → Act
  | .dmaWrite c => .setTransferCount .tx c.size
  | .dmaRead c => .setTransferCount .rx c.size
  | .dmaStart _ => .startChannelMask
  | .take d c => .xSemaphoreTake d (pdMsToTicks c.timeoutMs)

def next : (p : Pc) → (act pdMsToTicks p).Ans → Pc ⊕ BitVec 16
  | .dmaWrite c, _ => .inl (.dmaRead c)
  | .dmaRead c, _ => .inl (.dmaStart c)
  | .dmaStart c, _ => .inl (.take .tx c)
  | .take .tx c, _ => .inl (.take .rx c)
  | .take .rx c, _ => .inr c.size

def code : Pc → Code (BitVec 16)
  | .dmaWrite c => transfer pdMsToTicks c
  | .dmaRead c => do
      Completion.dmaRead c.size
      Completion.dmaStart
      let _ ← xSemaphoreTake .tx (pdMsToTicks c.timeoutMs)
      let _ ← xSemaphoreTake .rx (pdMsToTicks c.timeoutMs)
      pure c.size
  | .dmaStart c => do
      Completion.dmaStart
      let _ ← xSemaphoreTake .tx (pdMsToTicks c.timeoutMs)
      let _ ← xSemaphoreTake .rx (pdMsToTicks c.timeoutMs)
      pure c.size
  | .take .tx c => do
      let _ ← xSemaphoreTake .tx (pdMsToTicks c.timeoutMs)
      let _ ← xSemaphoreTake .rx (pdMsToTicks c.timeoutMs)
      pure c.size
  | .take .rx c => do
      let _ ← xSemaphoreTake .rx (pdMsToTicks c.timeoutMs)
      pure c.size

end Pc

def automaton : Automaton Act Act.Ans Pc (BitVec 16) where
  act := Pc.act pdMsToTicks
  next := Pc.next pdMsToTicks

theorem automaton_unfolds : (automaton pdMsToTicks).Unfolds (Pc.code pdMsToTicks) := by
  intro p
  cases p with
  | dmaWrite c => rfl
  | dmaRead c => rfl
  | dmaStart c => rfl
  | take d c => cases d <;> rfl

/-! ## The channels and the task -/

/-- `block` is the call whose block the channel moves. -/
structure Channel where
  count : BitVec 16
  block : Option Nat
  sem : Bool

inductive Event where
  | finished (d : Chan) (k : Nat)
  | returned (k : Nat) (size : BitVec 16)
  deriving DecidableEq

/-- The calls are numbered from 1; `index` is the number of the last one that has begun. -/
structure Sys where
  chan : Chan → Channel
  waited : Nat
  pc : Option Pc
  index : Nat
  calls : List Call
  history : List Event

namespace Sys

def boot (calls : List Call) : Sys where
  chan _ := ⟨0#16, none, false⟩
  waited := 0
  pc := none
  index := 0
  calls := calls
  history := []

def setChan (s : Sys) (d : Chan) (c : Channel) : Sys :=
  { s with chan := Function.update s.chan d c }

/-- A channel that is started begins the block of the current call; one that still moves a block
goes on with that. -/
def startChannel (s : Sys) (d : Chan) : Channel :=
  { s.chan d with block := some ((s.chan d).block.getD s.index) }

/-- A take with `ticks` has waited long enough. -/
def expired (s : Sys) (ticks : BitVec 32) : Bool :=
  ticks ≠ portMAX_DELAY ∧ ticks.toNat ≤ s.waited

def perform : (a : Act) → Sys → Option (a.Ans × Sys)
  | .setTransferCount d count, s => some ((), s.setChan d { s.chan d with count := count })
  | .startChannelMask, s => some ((), { s with chan := s.startChannel })
  | .xSemaphoreTake d ticks, s =>
      if (s.chan d).sem then
        some (true, s.setChan d { s.chan d with sem := false })
      else if s.expired ticks then
        some (false, s)
      else
        none

def taskStep (s : Sys) : Option Sys :=
  match s.pc with
  | none => none
  | some p =>
      ((automaton pdMsToTicks).step perform p s).map fun qs =>
        match qs.1 with
        | .inl q => { qs.2 with pc := some q, waited := 0 }
        | .inr size =>
            { qs.2 with pc := none, waited := 0, history := .returned s.index size :: s.history }

def beginCall (s : Sys) : Option Sys :=
  match s.pc, s.calls with
  | none, c :: cs =>
      some { s with pc := some (.dmaWrite c), index := s.index + 1, calls := cs, waited := 0 }
  | _, _ => none

/-- A channel finishes its block, and its interrupt gives the semaphore. -/
def complete (s : Sys) (d : Chan) : Option Sys :=
  match (s.chan d).block with
  | some k =>
      some { s.setChan d { s.chan d with block := none, sem := true } with
        history := .finished d k :: s.history }
  | none => none

end Sys

inductive Label where
  | beginCall
  | task
  | complete (d : Chan)
  | tick

def step : Label → Sys → Option Sys
  | .beginCall, s => s.beginCall
  | .task, s => s.taskStep pdMsToTicks
  | .complete d, s => s.complete d
  | .tick, s => some { s with waited := s.waited + 1 }

/-! ## The property -/

/-- A call has returned only with both channels done with its own block, and when a call begins,
both semaphores are empty and no completion is still to come. -/
structure Genuine (s : Sys) : Prop where
  returns : ∀ k size, Event.returned k size ∈ s.history →
    ∀ d, Event.finished d k ∈ s.history
  begins : s.pc = none → s.calls ≠ [] → ∀ d, (s.chan d).sem = false ∧ (s.chan d).block = none

/-! ## What each step does -/

section Steps

variable {pdMsToTicks} {s : Sys} {c : Call}

theorem task_dmaWrite (h : s.pc = some (.dmaWrite c)) :
    step pdMsToTicks .task s = some { s.setChan .tx { s.chan .tx with count := c.size } with
      pc := some (.dmaRead c), waited := 0 } := by
  simp only [step, Sys.taskStep, h]
  rfl

theorem task_dmaRead (h : s.pc = some (.dmaRead c)) :
    step pdMsToTicks .task s = some { s.setChan .rx { s.chan .rx with count := c.size } with
      pc := some (.dmaStart c), waited := 0 } := by
  simp only [step, Sys.taskStep, h]
  rfl

theorem task_dmaStart (h : s.pc = some (.dmaStart c)) :
    step pdMsToTicks .task s =
      some { s with chan := s.startChannel, pc := some (.take .tx c), waited := 0 } := by
  simp only [step, Sys.taskStep, h]
  rfl

/-- Where the task goes from a take, its result being dropped. -/
def afterTake (d : Chan) (c : Call) (s : Sys) : Sys :=
  match d with
  | .tx => { s with pc := some (.take .rx c), waited := 0 }
  | .rx => { s with pc := none, waited := 0, history := .returned s.index c.size :: s.history }

theorem task_take (d : Chan) (h : s.pc = some (.take d c)) :
    step pdMsToTicks .task s =
      if (s.chan d).sem then
        some (afterTake d c (s.setChan d { s.chan d with sem := false }))
      else if s.expired (pdMsToTicks c.timeoutMs) then
        some (afterTake d c s)
      else
        none := by
  simp only [step, Sys.taskStep, h, Automaton.step, automaton, Pc.act, Sys.perform]
  cases d with
  | tx =>
      split
      · rfl
      · split <;> rfl
  | rx =>
      split
      · rfl
      · split <;> rfl

end Steps

/-! ## The invariant -/

/-- The channel has nothing to do and owes nothing. -/
def Channel.Quiet (c : Channel) : Prop :=
  c.sem = false ∧ c.block = none

/-- The channel moves the block of call `k`, or has finished it and given its semaphore. -/
def Channel.Serves (c : Channel) (d : Chan) (k : Nat) (history : List Event) : Prop :=
  (c.block = some k ∧ c.sem = false) ∨
    (c.block = none ∧ c.sem = true ∧ .finished d k ∈ history)

/-- Where the channels are while the task is at a point of call `k`. -/
def Place (chan : Chan → Channel) (k : Nat) (history : List Event) : Option Pc → Prop
  | none => ∀ d, (chan d).Quiet
  | some (.dmaWrite _) => ∀ d, (chan d).Quiet
  | some (.dmaRead _) => ∀ d, (chan d).Quiet
  | some (.dmaStart _) => ∀ d, (chan d).Quiet
  | some (.take .tx _) => ∀ d, (chan d).Serves d k history
  | some (.take .rx _) =>
      (chan .tx).Quiet ∧ .finished .tx k ∈ history ∧ (chan .rx).Serves .rx k history

def Pc.call : Pc → Call
  | .dmaWrite c => c
  | .dmaRead c => c
  | .dmaStart c => c
  | .take _ c => c

/-- The call waits as long as it takes. -/
def Call.Patient (c : Call) : Prop :=
  pdMsToTicks c.timeoutMs = portMAX_DELAY

structure Inv (s : Sys) : Prop where
  patient : ∀ c ∈ s.calls, c.Patient pdMsToTicks
  current : ∀ p, s.pc = some p → p.call.Patient pdMsToTicks
  returns : ∀ k size, Event.returned k size ∈ s.history → ∀ d, Event.finished d k ∈ s.history
  place : Place s.chan s.index s.history s.pc

variable {pdMsToTicks} {s t : Sys} {l : Label}

theorem Inv.genuine (h : Inv pdMsToTicks s) : Genuine s := by
  refine ⟨h.returns, ?_⟩
  intro hpc _
  have hplace := h.place
  rw [hpc] at hplace
  exact hplace

theorem Call.Patient.not_expired {c : Call} (h : c.Patient pdMsToTicks) :
    s.expired (pdMsToTicks c.timeoutMs) = false := by
  have hticks : pdMsToTicks c.timeoutMs = portMAX_DELAY := h
  simp [Sys.expired, hticks]

theorem Channel.Serves.mono {c : Channel} {d : Chan} {k : Nat} {es es' : List Event}
    (h : c.Serves d k es) (hsub : ∀ e ∈ es, e ∈ es') : c.Serves d k es' := by
  rcases h with hmoving | ⟨hblock, hsem, hdone⟩
  · exact Or.inl hmoving
  · exact Or.inr ⟨hblock, hsem, hsub _ hdone⟩

/-- A channel whose semaphore is there has finished its block. -/
theorem Channel.Serves.done {c : Channel} {d : Chan} {k : Nat} {es : List Event}
    (h : c.Serves d k es) (hsem : c.sem = true) : c.block = none ∧ .finished d k ∈ es := by
  rcases h with ⟨_, hno⟩ | ⟨hblock, _, hdone⟩
  · cases hsem.symm.trans hno
  · exact ⟨hblock, hdone⟩

/-- The block of a channel finishes. -/
theorem Channel.Serves.finish {chan : Chan → Channel} {d d' : Chan} {k i : Nat} {es : List Event}
    (h : (chan d').Serves d' i es) (hblock : (chan d).block = some k) :
    (Function.update chan d { chan d with block := none, sem := true } d').Serves d' i
      (.finished d k :: es) := by
  by_cases hdd : d' = d
  · -- The block was that of call `i`.
    subst hdd
    rw [Function.update_self]
    rcases h with ⟨hmoving, _⟩ | ⟨hnone, _⟩
    · cases hmoving.symm.trans hblock
      exact Or.inr ⟨rfl, rfl, List.mem_cons_self⟩
    · cases hnone.symm.trans hblock
  · rw [Function.update_of_ne hdd]
    exact h.mono fun e he => List.mem_cons_of_mem _ he

theorem quiet_setCount {chan : Chan → Channel} (h : ∀ d, (chan d).Quiet) (d' : Chan)
    (n : BitVec 16) :
    ∀ d, (Function.update chan d' { chan d' with count := n } d).Quiet := by
  intro d
  by_cases hd : d = d'
  · subst hd
    rw [Function.update_self]
    exact h d
  · rw [Function.update_of_ne hd]
    exact h d

/-- The task takes the semaphore that a finished block has given. -/
theorem Inv.afterTake (h : Inv pdMsToTicks s) {d : Chan} {c : Call}
    (hpc : s.pc = some (.take d c)) (hsem : (s.chan d).sem = true) :
    Inv pdMsToTicks (afterTake d c (s.setChan d { s.chan d with sem := false })) := by
  have hplace := h.place
  have hcur := h.current _ hpc
  rw [hpc] at hplace
  cases d with
  | tx =>
      have hdone := (hplace .tx).done hsem
      -- The transmit block has finished; the wait for the receive block is next.
      refine ⟨h.patient, ?_, h.returns, ⟨rfl, hdone.1⟩, hdone.2, hplace .rx⟩
      intro p hp
      cases hp
      exact hcur
  | rx =>
      rcases hplace with ⟨htx, htxdone, hrx⟩
      have hdone := hrx.done hsem
      refine ⟨h.patient, ?_, ?_, ?_⟩
      · intro p hp
        cases hp
      · intro k size hk d
        rcases List.mem_cons.1 hk with heq | hk
        · -- The call that returns now: both of its blocks have finished.
          cases heq
          cases d with
          | tx => exact List.mem_cons_of_mem _ htxdone
          | rx => exact List.mem_cons_of_mem _ hdone.2
        · exact List.mem_cons_of_mem _ (h.returns k size hk d)
      · intro d
        cases d with
        | tx => exact htx
        | rx => exact ⟨rfl, hdone.1⟩

theorem Inv.task (h : Inv pdMsToTicks s) (hstep : step pdMsToTicks .task s = some t) :
    Inv pdMsToTicks t := by
  have hplace := h.place
  cases hpc : s.pc with
  | none => simp [step, Sys.taskStep, hpc] at hstep
  | some p =>
      have hcur := h.current p hpc
      rw [hpc] at hplace
      cases p with
      | dmaWrite c =>
          rw [task_dmaWrite hpc] at hstep
          cases hstep
          refine ⟨h.patient, ?_, h.returns, quiet_setCount hplace _ _⟩
          intro p hp
          cases hp
          exact hcur
      | dmaRead c =>
          rw [task_dmaRead hpc] at hstep
          cases hstep
          refine ⟨h.patient, ?_, h.returns, quiet_setCount hplace _ _⟩
          intro p hp
          cases hp
          exact hcur
      | dmaStart c =>
          rw [task_dmaStart hpc] at hstep
          cases hstep
          refine ⟨h.patient, ?_, h.returns, ?_⟩
          · intro p hp
            cases hp
            exact hcur
          · intro d
            rcases hplace d with ⟨hsem, hblock⟩
            refine Or.inl ⟨?_, hsem⟩
            simp [Sys.startChannel, hblock]
      | take d c =>
          -- A patient call does not give up: it goes on only with the semaphore.
          have hpatient : c.Patient pdMsToTicks := hcur
          rw [task_take d hpc, hpatient.not_expired, if_neg Bool.false_ne_true] at hstep
          split at hstep
          · rename_i hsem
            cases hstep
            exact h.afterTake hpc hsem
          · cases hstep

theorem Inv.beginCall (h : Inv pdMsToTicks s) (hstep : s.beginCall = some t) :
    Inv pdMsToTicks t := by
  simp only [Sys.beginCall] at hstep
  split at hstep
  · rename_i c cs hpc hcalls
    cases hstep
    have hplace := h.place
    rw [hpc] at hplace
    have hpatient := h.patient
    rw [hcalls] at hpatient
    refine ⟨fun c' hc' => hpatient c' (List.mem_cons_of_mem _ hc'), ?_, h.returns, hplace⟩
    intro p hp
    cases hp
    exact hpatient c List.mem_cons_self
  · cases hstep

/-- Only the block of the current call can finish. -/
theorem Inv.complete (h : Inv pdMsToTicks s) {d : Chan} (hstep : s.complete d = some t) :
    Inv pdMsToTicks t := by
  simp only [Sys.complete] at hstep
  split at hstep
  · rename_i k hblock
    cases hstep
    have hplace := h.place
    refine ⟨h.patient, h.current, ?_, ?_⟩
    · intro k' size hk' d'
      rcases List.mem_cons.1 hk' with heq | hk'
      · cases heq
      · exact List.mem_cons_of_mem _ (h.returns k' size hk' d')
    · -- So the task is at a take that this channel serves.
      have hquiet : ¬ (s.chan d).Quiet := by
        intro hq
        cases hq.2.symm.trans hblock
      have hserved : ∀ d', (s.chan d').Serves d' s.index s.history →
          (Function.update s.chan d { s.chan d with block := none, sem := true } d').Serves d'
            s.index (.finished d k :: s.history) :=
        fun d' hd' => hd'.finish hblock
      change Place _ s.index _ s.pc
      cases hpc : s.pc with
      | none =>
          rw [hpc] at hplace
          exact absurd (hplace d) hquiet
      | some p =>
          rw [hpc] at hplace
          cases p with
          | dmaWrite c => exact absurd (hplace d) hquiet
          | dmaRead c => exact absurd (hplace d) hquiet
          | dmaStart c => exact absurd (hplace d) hquiet
          | take d' c =>
              cases d' with
              | tx => exact fun d' => hserved d' (hplace d')
              | rx =>
                  rcases hplace with ⟨htx, htxdone, hrx⟩
                  have hne : Chan.tx ≠ d := by
                    rintro rfl
                    exact hquiet htx
                  have hkept : (Function.update s.chan d
                      { s.chan d with block := none, sem := true } .tx).Quiet := by
                    rw [Function.update_of_ne hne]
                    exact htx
                  exact ⟨hkept, List.mem_cons_of_mem _ htxdone, hserved .rx hrx⟩
  · cases hstep

theorem Inv.step (h : Inv pdMsToTicks s) (hstep : Completion.step pdMsToTicks l s = some t) :
    Inv pdMsToTicks t := by
  cases l with
  | beginCall => exact h.beginCall hstep
  | task => exact h.task hstep
  | complete d => exact h.complete hstep
  | tick =>
      cases hstep
      exact ⟨h.patient, h.current, h.returns, h.place⟩

/-! ## Calls that give up -/

/-- No call is running, the channels are quiet, and no block with a later number has finished. -/
structure AtRest (s : Sys) (calls : List Call) : Prop where
  pc : s.pc = none
  calls : s.calls = calls
  quiet : ∀ d, (s.chan d).Quiet
  past : ∀ d k, Event.finished d k ∈ s.history → k ≤ s.index

/-- The task at the first take of call `s.index`, with both channels started. -/
structure Waiting (s : Sys) (c : Call) (cs : List Call) : Prop where
  pc : s.pc = some (.take .tx c)
  calls : s.calls = cs
  moving : ∀ d, (s.chan d).sem = false ∧ (s.chan d).block = some s.index
  past : ∀ d k, Event.finished d k ∈ s.history → k < s.index

variable (pdMsToTicks) in
/-- A call comes to its first take. -/
theorem AtRest.exists_waiting {c : Call} {cs : List Call} (h : AtRest s (c :: cs)) :
    ∃ t, Reachable (step pdMsToTicks) s t ∧ Waiting t c cs := by
  have hbegin : step pdMsToTicks .beginCall s = some { s with
      pc := some (.dmaWrite c), index := s.index + 1, calls := cs, waited := 0 } := by
    simp only [step, Sys.beginCall, h.pc, h.calls]
  refine ⟨_, ((((Reachable.single hbegin).trans (.single (task_dmaWrite rfl))).trans
    (.single (task_dmaRead rfl))).trans (.single (task_dmaStart rfl))), rfl, rfl, ?_, ?_⟩
  · intro d
    rcases h.quiet d with ⟨hsem, hblock⟩
    cases d <;> simp [Sys.startChannel, Sys.setChan, hsem, hblock]
  · intro d k hk
    exact Nat.lt_succ_of_le (h.past d k hk)

variable (pdMsToTicks) in
theorem complete_of_block {d : Chan} {k : Nat} (h : (s.chan d).block = some k) :
    step pdMsToTicks (.complete d) s =
      some { s.setChan d { s.chan d with block := none, sem := true } with
        history := .finished d k :: s.history } := by
  simp only [step, Sys.complete, h]

theorem task_take_of_sem {d : Chan} {c : Call} (h : s.pc = some (.take d c))
    (hsem : (s.chan d).sem = true) :
    step pdMsToTicks .task s =
      some (afterTake d c (s.setChan d { s.chan d with sem := false })) := by
  rw [task_take d h, if_pos hsem]

variable (pdMsToTicks) in
/-- Both channels finish before the task looks: whatever its time-out, the call is served. -/
theorem Waiting.exists_atRest {c : Call} {cs : List Call} (h : Waiting s c cs) :
    ∃ t, Reachable (step pdMsToTicks) s t ∧ AtRest t cs := by
  have htx := complete_of_block pdMsToTicks (h.moving .tx).2
  refine ⟨_, ((((Reachable.single htx).trans
    (.single (complete_of_block pdMsToTicks (d := .rx) (k := s.index) ?_))).trans
    (.single (task_take_of_sem (d := .tx) h.pc ?_))).trans
    (.single (task_take_of_sem (d := .rx) rfl ?_))), rfl, h.calls, ?_, ?_⟩
  · exact (h.moving .rx).2
  · rfl
  · rfl
  · intro d
    cases d with
    | tx => exact ⟨rfl, rfl⟩
    | rx => exact ⟨rfl, rfl⟩
  · intro d k hk
    simp only [afterTake, Sys.setChan, List.mem_cons, reduceCtorEq, false_or,
      Event.finished.injEq] at hk
    rcases hk with ⟨_, rfl⟩ | ⟨_, rfl⟩ | hk
    · exact Nat.le_refl _
    · exact Nat.le_refl _
    · exact Nat.le_of_lt (h.past d k hk)

theorem reachable_ticks (n : Nat) :
    Reachable (step pdMsToTicks) s { s with waited := s.waited + n } := by
  induction n with
  | zero => exact .refl s
  | succ n ih => exact ih.trans (Reachable.single (l := .tick) rfl)

/-- A take whose time-out is over, with its semaphore empty. -/
theorem exists_gaveUp {d : Chan} {c : Call} (h : s.pc = some (.take d c))
    (hsem : (s.chan d).sem = false) (hc : ¬ c.Patient pdMsToTicks) :
    ∃ w, Reachable (step pdMsToTicks) s (afterTake d c { s with waited := w }) := by
  refine ⟨s.waited + (pdMsToTicks c.timeoutMs).toNat,
    (reachable_ticks (pdMsToTicks c.timeoutMs).toNat).trans (Reachable.single (l := .task) ?_)⟩
  generalize ht : ({ s with waited := s.waited + (pdMsToTicks c.timeoutMs).toNat } : Sys) = t
  have hpc : t.pc = some (.take d c) := ht ▸ h
  have hempty : (t.chan d).sem = false := ht ▸ hsem
  have hexpired : t.expired (pdMsToTicks c.timeoutMs) = true := by
    have hticks : pdMsToTicks c.timeoutMs ≠ portMAX_DELAY := hc
    simp [Sys.expired, hticks, ← ht]
  rw [task_take d hpc, hempty, if_neg Bool.false_ne_true, if_pos hexpired]

/-- A call that gives up both waits returns with both channels still moving its block. -/
theorem Waiting.exists_not_genuine {c : Call} {cs : List Call} (h : Waiting s c cs)
    (hc : ¬ c.Patient pdMsToTicks) :
    ∃ t, Reachable (step pdMsToTicks) s t ∧ ¬ Genuine t := by
  rcases exists_gaveUp h.pc (h.moving .tx).1 hc with ⟨w, htx⟩
  have hpc : (afterTake .tx c { s with waited := w }).pc = some (.take .rx c) := rfl
  rcases exists_gaveUp hpc (h.moving .rx).1 hc with ⟨w', hrx⟩
  refine ⟨_, htx.trans hrx, ?_⟩
  intro hgenuine
  have hdone := hgenuine.returns s.index c.size List.mem_cons_self .tx
  simp only [afterTake, List.mem_cons, reduceCtorEq, false_or] at hdone
  exact absurd (h.past _ _ hdone) (Nat.lt_irrefl _)

/-- Before a call that does not wait for ever, all calls can be served. -/
theorem AtRest.exists_not_genuine {calls : List Call} {c : Call} (hmem : c ∈ calls)
    (hc : ¬ c.Patient pdMsToTicks) : ∀ {s : Sys}, AtRest s calls →
    ∃ t, Reachable (step pdMsToTicks) s t ∧ ¬ Genuine t := by
  induction calls with
  | nil => cases hmem
  | cons c' cs ih =>
      intro s h
      rcases h.exists_waiting pdMsToTicks with ⟨u, hu, hwaiting⟩
      rcases List.mem_cons.1 hmem with rfl | hmem
      · rcases hwaiting.exists_not_genuine hc with ⟨t, ht, hbad⟩
        exact ⟨t, hu.trans ht, hbad⟩
      · rcases hwaiting.exists_atRest pdMsToTicks with ⟨v, hv, hrest⟩
        rcases ih hmem hrest with ⟨t, ht, hbad⟩
        exact ⟨t, (hu.trans hv).trans ht, hbad⟩

/-! ## Runs -/

theorem Inv.boot {calls : List Call} (h : ∀ c ∈ calls, c.Patient pdMsToTicks) :
    Inv pdMsToTicks (Sys.boot calls) where
  patient := h
  current p hp := by cases hp
  returns k size hk := by cases hk
  place _ := ⟨rfl, rfl⟩

theorem AtRest.boot (calls : List Call) : AtRest (Sys.boot calls) calls where
  pc := rfl
  calls := rfl
  quiet _ := ⟨rfl, rfl⟩
  past d k hk := by cases hk

/-- No completion is mistaken for another one, for any calls, time-outs and timing. -/
def NeverMistaken : Prop :=
  ∀ (pdMsToTicks : BitVec 32 → BitVec 32) (calls : List Call),
    Always (step pdMsToTicks) Genuine (Sys.boot calls)

/-- A call with a time-out of zero returns while its block is on the way. -/
theorem not_neverMistaken : ¬ NeverMistaken := by
  intro h
  rcases exists_run_of_exec (step id) Free (Sys.boot [⟨4#16, 0#32⟩])
    [.beginCall, .task, .task, .task, .task, .task]
    (fun t => .returned 1 4#16 ∈ t.history ∧ .finished .tx 1 ∉ t.history)
    (by decide +kernel) with ⟨t, hrun, ht⟩
  rcases of_decide_eq_true ht with ⟨hreturned, hnot⟩
  exact hnot ((h id _ t ⟨_, hrun⟩).returns 1 _ hreturned .tx)

/-- A sequence of calls is free of mistaken completions under every timing exactly if each of its
calls waits without a time-out. -/
theorem genuine_iff_patient (pdMsToTicks : BitVec 32 → BitVec 32) (calls : List Call) :
    Always (step pdMsToTicks) Genuine (Sys.boot calls) ↔
      ∀ c ∈ calls, pdMsToTicks c.timeoutMs = portMAX_DELAY := by
  constructor
  · intro h c hmem
    by_contra hc
    rcases AtRest.exists_not_genuine hmem hc (AtRest.boot calls) with ⟨t, ht, hbad⟩
    exact hbad (h t ht)
  · intro h t ht
    have hinv : Inv pdMsToTicks t :=
      ht.invariant (fun _ _ _ hI hstep => hI.step hstep) (Inv.boot h)
    exact hinv.genuine

end Completion
end Spi
end PicoCppSdk
