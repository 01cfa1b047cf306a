import PicoCppSdk.Dma.Acknowledge
import PicoCppSdk.Spi.Completion

/-!
# Interrupts — DMA transfers from the start of the channels to the return

`SPI::SPI` claims a channel for each direction and registers `damCallback` with the semaphore of
that direction.  A channel that has finished its block raises the interrupt of its line; the handler
of the line calls `damCallback`, which gives the semaphore that `SPI::transfer` waits for.

The task that transfers runs on the core of the handlers, where it goes on only when no interrupt is
left, or on the other core, where it goes on as soon as it has its semaphores.
-/

namespace PicoCppSdk
namespace Spi
namespace Interrupts

open Atomic Transition
open Completion (Chan)
open Dma (Callback Irq IsrPc Line lineOf)

variable {n : Nat}

/-! ## What the constructor sets up -/

/-- The functions that are registered with `enableDma`. -/
inductive Callee where
  | damCallback
  | other (k : Nat)

/-- What they are registered with: a semaphore of this object, or something of another one. -/
inductive Param where
  | semaphore (d : Chan)
  | other (k : Nat)

abbrev Channels (n : Nat) := Dma.Sys n Callee Param

/-- The calls of `SPI::SPI` behind `if (enableDma)`, with the channels that are free for them. -/
def enableDma (s : Channels n) (dmaRx dmaTx : Fin n) : Option (Channels n) :=
  (s.enableDma (some .damCallback) (some (.semaphore .rx)) dmaRx).bind fun s =>
    s.enableDma (some .damCallback) (some (.semaphore .tx)) dmaTx

/-- An object that uses DMA: the table, the channels enabled on each line, and its own two. -/
structure Setup (n : Nat) where
  table : Fin n → Callback Callee Param
  enabled : Line → Finset (Fin n)
  channel : Chan → Fin n
  distinct : channel .tx ≠ channel .rx
  registered : ∀ d, table (channel d) = ⟨some .damCallback, some (.semaphore d)⟩
  routed : ∀ d L, channel d ∈ enabled L ↔ L = lineOf (channel d)

section Setup

variable {s t : Channels n} {c : Fin n}

theorem enableDma_eq_some {f : Callee} {param : Option Param}
    (h : s.enableDma (some f) param c = some t) :
    c ∉ s.claimed ∧ t.claimed = insert c s.claimed ∧
      t.callbackList = Function.update s.callbackList c ⟨some f, param⟩ ∧
        t.enabled = Function.update s.enabled (lineOf c) (insert c (s.enabled (lineOf c))) := by
  simp only [Dma.Sys.enableDma] at h
  split at h
  · cases h
  · rename_i hfree
    split at h
    · rename_i hc
      cases h
      simp [hfree, lineOf, hc]
    · rename_i hc
      cases h
      simp [hfree, lineOf, hc]

/-- What the constructor leaves, for each of its channels. -/
theorem enableDma_leaves {dmaRx dmaTx : Fin n} (hs : Reachable Dma.Sys.step Dma.Sys.boot s)
    (h : enableDma s dmaRx dmaTx = some t) :
    dmaTx ≠ dmaRx ∧ t.callbackList dmaRx = ⟨some .damCallback, some (.semaphore .rx)⟩ ∧
      t.callbackList dmaTx = ⟨some .damCallback, some (.semaphore .tx)⟩ ∧
        ∀ c, c = dmaRx ∨ c = dmaTx → ∀ L, c ∈ t.enabled L ↔ L = lineOf c := by
  rcases Option.bind_eq_some_iff.1 h with ⟨u, hrx, htx⟩
  rcases enableDma_eq_some hrx with ⟨-, hclaimed, htable, hon⟩
  rcases enableDma_eq_some htx with ⟨hfree, -, htable', hon'⟩
  have hne : dmaTx ≠ dmaRx := by
    rintro rfl
    exact hfree (hclaimed ▸ Finset.mem_insert_self _ _)
  have hu : Dma.Sys.step (.enableDma (some .damCallback) (some (.semaphore .rx)) dmaRx) s =
      some u := hrx
  have ht : Dma.Sys.step (.enableDma (some .damCallback) (some (.semaphore .tx)) dmaTx) u =
      some t := htx
  have hrouted := Dma.Sys.routed_of_reachable ((hs.trans (.single hu)).trans (.single ht))
  refine ⟨hne, ?_, ?_, ?_⟩
  · rw [htable', Function.update_of_ne hne.symm, htable, Function.update_self]
  · rw [htable', Function.update_self]
  · intro c hc L
    constructor
    · exact fun hmem => (hrouted.line L c hmem).symm
    · rintro rfl
      rw [hon', hon]
      rcases hc with rfl | rfl
      · by_cases hL : lineOf c = lineOf dmaTx <;> simp [hL]
      · simp

/-- The constructor, whichever channels it gets. -/
def Setup.ofEnableDma {dmaRx dmaTx : Fin n} (hs : Reachable Dma.Sys.step Dma.Sys.boot s)
    (h : enableDma s dmaRx dmaTx = some t) : Setup n where
  table := t.callbackList
  enabled := t.enabled
  channel d := if d = .tx then dmaTx else dmaRx
  distinct := (enableDma_leaves hs h).1
  registered d := by
    cases d with
    | tx => exact (enableDma_leaves hs h).2.2.1
    | rx => exact (enableDma_leaves hs h).2.1
  routed d := by
    refine (enableDma_leaves hs h).2.2.2 _ ?_
    cases d with
    | tx => exact Or.inr rfl
    | rx => exact Or.inl rfl

end Setup

/-! ## The system -/

/-- Where the task runs, as seen from the handlers. -/
inductive Core where
  | same
  | other

/-- The pending bits, where the handlers are, and the task with the channels and semaphores. -/
structure Sys (n : Nat) where
  irq : Irq n Callee Param
  isr : Option (IsrPc n Callee)
  spi : Completion.Sys

inductive Label where
  | beginCall
  | task
  | tick
  /-- A channel has moved its block. -/
  | finish (d : Chan)
  /-- The processor enters the handler of a line. -/
  | interrupt (L : Line)
  /-- The handler performs its next action. -/
  | handler

def boot (calls : List Completion.Call) : Sys n where
  irq := ⟨fun _ => ∅, []⟩
  isr := none
  spi := .boot calls

/-- `damCallback(param)` -/
def damCallback (param : Option Param) (s : Completion.Sys) : Completion.Sys :=
  match param with
  | some (.semaphore d) => s.setChan d { s.chan d with sem := true }
  | _ => s

/-- What an action of a handler does to the semaphores. -/
def gives : Dma.Act n Callee Param → Completion.Sys → Completion.Sys
  | .call .damCallback param, s => damCallback param s
  | _, s => s

namespace Sys

def perform (a : Dma.Act n Callee Param) (s : Sys n) : a.Ans × Sys n :=
  ((Irq.perform a s.irq).1,
    { s with irq := (Irq.perform a s.irq).2, spi := gives a s.spi })

/-- The task can run: on the core of the handlers, no interrupt is served or left. -/
def ready (core : Core) (s : Sys n) : Bool :=
  match core with
  | .same =>
      s.isr.isNone && decide (s.irq.pending .irq0 = ∅) && decide (s.irq.pending .irq1 = ∅)
  | .other => true

variable (S : Setup n)

/-- The pending bits after the block of `d`, on each line where the channel is enabled. -/
def raise (s : Sys n) (d : Chan) (L : Line) : Finset (Fin n) :=
  if S.channel d ∈ S.enabled L then
    insert (S.channel d) (s.irq.pending L)
  else
    s.irq.pending L

def finish (s : Sys n) (d : Chan) : Option (Sys n) :=
  match (s.spi.chan d).block with
  | some k =>
      some { s with
        irq := { s.irq with pending := s.raise S d }
        spi := { s.spi.setChan d { s.spi.chan d with block := none } with
          history := .finished d k :: s.spi.history } }
  | none => none

def interrupt (s : Sys n) (L : Line) : Option (Sys n) :=
  match s.isr with
  | some _ => none
  | none =>
      if s.irq.pending L = ∅ then
        none
      else
        some { s with isr := IsrPc.entered (IsrPc.fromLoop (L.channels n)) }

def handler (s : Sys n) : Option (Sys n) :=
  match s.isr with
  | none => none
  | some p =>
      ((Dma.isrAutomaton S.table).step (fun a s => some (perform a s)) p s).map fun qs =>
        { qs.2 with isr := IsrPc.entered qs.1 }

/-- A step of the task. -/
def run (core : Core) (s : Sys n) (t : Option Completion.Sys) : Option (Sys n) :=
  if s.ready core then t.map fun spi => { s with spi := spi } else none

end Sys

variable (pdMsToTicks : BitVec 32 → BitVec 32) (S : Setup n) (core : Core)

def step : Label → Sys n → Option (Sys n)
  | .beginCall, s => s.run core (Completion.step pdMsToTicks .beginCall s.spi)
  | .task, s => s.run core (Completion.step pdMsToTicks .task s.spi)
  | .tick, s => some { s with spi := { s.spi with waited := s.spi.waited + 1 } }
  | .finish d, s => s.finish S d
  | .interrupt L, s => s.interrupt L
  | .handler, s => s.handler S

/-! ## What each step does -/

/-- The steps of the task, by the statement they perform. -/
inductive TaskMove (s : Completion.Sys) : Completion.Sys → Prop where
  | begin (c : Completion.Call) (cs : List Completion.Call) (hpc : s.pc = none)
      (hcalls : s.calls = c :: cs) :
      TaskMove s { s with
        pc := some (.dmaWrite c), index := s.index + 1, calls := cs, waited := 0 }
  | dmaWrite (c : Completion.Call) (hpc : s.pc = some (.dmaWrite c)) :
      TaskMove s { s.setChan .tx { s.chan .tx with count := c.size } with
        pc := some (.dmaRead c), waited := 0 }
  | dmaRead (c : Completion.Call) (hpc : s.pc = some (.dmaRead c)) :
      TaskMove s { s.setChan .rx { s.chan .rx with count := c.size } with
        pc := some (.dmaStart c), waited := 0 }
  | dmaStart (c : Completion.Call) (hpc : s.pc = some (.dmaStart c)) :
      TaskMove s { s with chan := s.startChannel, pc := some (.take .tx c), waited := 0 }
  | take (d : Chan) (c : Completion.Call) (hpc : s.pc = some (.take d c))
      (hsem : (s.chan d).sem = true) :
      TaskMove s (Completion.afterTake d c (s.setChan d { s.chan d with sem := false }))
  | giveUp (d : Chan) (c : Completion.Call) (hpc : s.pc = some (.take d c))
      (hexpired : s.expired (pdMsToTicks c.timeoutMs) = true) :
      TaskMove s (Completion.afterTake d c s)

section Steps

variable {pdMsToTicks S core} {s t : Sys n} {u v : Completion.Sys}

theorem taskMove_of_beginCall (h : Completion.step pdMsToTicks .beginCall u = some v) :
    TaskMove pdMsToTicks u v := by
  cases hpc : u.pc with
  | some p => simp [Completion.step, Completion.Sys.beginCall, hpc] at h
  | none =>
      cases hcalls : u.calls with
      | nil => simp [Completion.step, Completion.Sys.beginCall, hpc, hcalls] at h
      | cons c cs =>
          simp only [Completion.step, Completion.Sys.beginCall, hpc, hcalls] at h
          cases h
          exact .begin c cs hpc hcalls

theorem taskMove_of_task (h : Completion.step pdMsToTicks .task u = some v) :
    TaskMove pdMsToTicks u v := by
  cases hpc : u.pc with
  | none => simp [Completion.step, Completion.Sys.taskStep, hpc] at h
  | some p =>
      cases p with
      | dmaWrite c =>
          rw [Completion.task_dmaWrite hpc] at h
          cases h
          exact .dmaWrite c hpc
      | dmaRead c =>
          rw [Completion.task_dmaRead hpc] at h
          cases h
          exact .dmaRead c hpc
      | dmaStart c =>
          rw [Completion.task_dmaStart hpc] at h
          cases h
          exact .dmaStart c hpc
      | take d c =>
          rw [Completion.task_take d hpc] at h
          split at h
          · rename_i hsem
            cases h
            exact .take d c hpc hsem
          · split at h
            · rename_i hexpired
              cases h
              exact .giveUp d c hpc hexpired
            · cases h

variable (pdMsToTicks S core) in
/-- The steps of the system. -/
inductive Move (s : Sys n) : Label → Sys n → Prop where
  | run {l : Label} {u : Completion.Sys} (hl : l = .beginCall ∨ l = .task)
      (hready : s.ready core = true) (hmove : TaskMove pdMsToTicks s.spi u) :
      Move s l { s with spi := u }
  | tick : Move s .tick { s with spi := { s.spi with waited := s.spi.waited + 1 } }
  | finish (d : Chan) (k : Nat) (hblock : (s.spi.chan d).block = some k) :
      Move s (.finish d) { s with
        irq := { s.irq with pending := s.raise S d }
        spi := { s.spi.setChan d { s.spi.chan d with block := none } with
          history := .finished d k :: s.spi.history } }
  | interrupt (L : Line) (hisr : s.isr = none) (hpending : s.irq.pending L ≠ ∅) :
      Move s (.interrupt L) { s with isr := IsrPc.entered (IsrPc.fromLoop (L.channels n)) }
  | status (c : Fin n) (cs : List (Fin n)) (hisr : s.isr = some (.status c cs)) :
      Move s .handler { s with
        isr := IsrPc.entered
          (IsrPc.fromStatus S.table c cs (decide (c ∈ s.irq.pending .irq0))) }
  | call (f : Callee) (c : Fin n) (cs : List (Fin n)) (hisr : s.isr = some (.call f c cs)) :
      Move s .handler
        { irq := { s.irq with calls := s.irq.calls ++ [(f, (S.table c).param)] }
          isr := some (.acknowledge c cs)
          spi := gives (.call f (S.table c).param : Dma.Act n Callee Param) s.spi }
  | acknowledge (c : Fin n) (cs : List (Fin n)) (hisr : s.isr = some (.acknowledge c cs)) :
      Move s .handler { s with
        irq := { s.irq with
          pending := Function.update s.irq.pending .irq0 ((s.irq.pending .irq0).erase c) }
        isr := IsrPc.entered (IsrPc.fromLoop cs) }

/-- `damCallback` gives the semaphore that the channel is registered with. -/
theorem gives_registered (d : Chan) (u : Completion.Sys) :
    gives (.call .damCallback (S.table (S.channel d)).param : Dma.Act n Callee Param) u =
      u.setChan d { u.chan d with sem := true } := by
  rw [S.registered d]
  rfl

theorem run_eq_some {v : Option Completion.Sys} (h : s.run core v = some t) :
    s.ready core = true ∧ ∃ u, v = some u ∧ t = { s with spi := u } := by
  simp only [Sys.run] at h
  split at h
  · rename_i hready
    rcases Option.map_eq_some_iff.1 h with ⟨u, hu, rfl⟩
    exact ⟨hready, u, hu, rfl⟩
  · cases h

theorem handler_status {c : Fin n} {cs : List (Fin n)} (hisr : s.isr = some (.status c cs)) :
    s.handler S = some { s with
      isr := IsrPc.entered
        (IsrPc.fromStatus S.table c cs (decide (c ∈ s.irq.pending .irq0))) } := by
  simp only [Sys.handler, hisr]
  rfl

theorem handler_call {f : Callee} {c : Fin n} {cs : List (Fin n)}
    (hisr : s.isr = some (.call f c cs)) :
    s.handler S = some
      { irq := { s.irq with calls := s.irq.calls ++ [(f, (S.table c).param)] }
        isr := some (.acknowledge c cs)
        spi := gives (.call f (S.table c).param : Dma.Act n Callee Param) s.spi } := by
  simp only [Sys.handler, hisr]
  rfl

theorem handler_acknowledge {c : Fin n} {cs : List (Fin n)}
    (hisr : s.isr = some (.acknowledge c cs)) :
    s.handler S = some { s with
      irq := { s.irq with
        pending := Function.update s.irq.pending .irq0 ((s.irq.pending .irq0).erase c) }
      isr := IsrPc.entered (IsrPc.fromLoop cs) } := by
  simp only [Sys.handler, hisr]
  rfl

theorem move_of_step {l : Label} (h : step pdMsToTicks S core l s = some t) :
    Move pdMsToTicks S core s l t := by
  cases l with
  | beginCall =>
      rcases run_eq_some h with ⟨hready, u, hu, rfl⟩
      exact .run (Or.inl rfl) hready (taskMove_of_beginCall hu)
  | task =>
      rcases run_eq_some h with ⟨hready, u, hu, rfl⟩
      exact .run (Or.inr rfl) hready (taskMove_of_task hu)
  | tick =>
      cases h
      exact .tick
  | finish d =>
      simp only [step, Sys.finish] at h
      split at h
      · rename_i k hblock
        cases h
        exact .finish d k hblock
      · cases h
  | interrupt L =>
      simp only [step, Sys.interrupt] at h
      split at h
      · cases h
      · rename_i hisr
        split at h
        · cases h
        · rename_i hpending
          cases h
          exact .interrupt L hisr hpending
  | handler =>
      cases hisr : s.isr with
      | none => simp [step, Sys.handler, hisr] at h
      | some p =>
          cases p with
          | status c cs =>
              cases (handler_status hisr).symm.trans h
              exact .status c cs hisr
          | call f c cs =>
              cases (handler_call hisr).symm.trans h
              exact .call f c cs hisr
          | acknowledge c cs =>
              cases (handler_acknowledge hisr).symm.trans h
              exact .acknowledge c cs hisr

end Steps

end Interrupts
end Spi
end PicoCppSdk
