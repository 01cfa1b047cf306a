import PicoCppSdk.Foundation.Ledger
import PicoCppSdk.Foundation.Program
import PicoCppSdk.Foundation.Transition

/-!
# Deletion — who deletes the task of a `TaskInterface`

The constructor starts a task.  The task is deleted by its own adapter, when `run()` returns, or by
the destructor of the object, which any task may run.  Both pass `taskHandler` to `vTaskDelete`:
the adapter leaves the handle as it was, the destructor does not look at `taskStarted`, and a
creation that fails leaves in `taskHandler` whatever the memory held.

The history of an object holds the handle that `start` obtained and the handles that were passed to
`vTaskDelete` on its behalf.
-/

namespace PicoCppSdk
namespace TaskInterface

open Atomic Ledger Transition

/-! ## The class -/

/-- `TaskHandle_t`, `QueueHandle_t`, `SemaphoreHandle_t`; the null pointer is 0. -/
abbrev Handle := Nat

/-- What `xTaskCreate` answers. -/
inductive Created where
  | pdPASS (h : Handle)
  | errCouldNotAllocateRequiredMemory

/-- Its `BaseType_t`. -/
def Created.code : Created → Int
  | .pdPASS _ => 1
  | .errCouldNotAllocateRequiredMemory => -1

theorem Created.eq_pdPASS {c : Created} (h : c.code = 1) : ∃ k, c = .pdPASS k := by
  cases c with
  | pdPASS k => exact ⟨k, rfl⟩
  | errCouldNotAllocateRequiredMemory => cases h

structure Fields where
  taskHandler : Handle
  taskStarted : Bool
  rxQueue : Handle
  rxSema : Handle

/-- `start()`, with the answer that `xTaskCreate` gives; on success it has stored the handle. -/
def start (f : Fields) (c : Created) : Bool × Fields :=
  if f.taskStarted then
    (false, f)
  else
    let f :=
      match c with
      | .pdPASS h => { f with taskHandler := h }
      | .errCouldNotAllocateRequiredMemory => f
    -- The error code is not zero either, so a task that was not created counts as started.
    let f := { f with taskStarted := c.code ≠ 0 }
    (f.taskStarted, f)

/-- The constructor; `garbage` is in the memory of `taskHandler` before it. -/
def construct (garbage rxQueue rxSema : Handle) (c : Created) : Fields :=
  (start { taskHandler := garbage, taskStarted := false, rxQueue := rxQueue, rxSema := rxSema } c).2

inductive Act where
  | vTaskDelete (h : Handle)
  | vQueueDelete (q : Handle)
  | vSemaphoreDelete (m : Handle)

abbrev Code (α : Type) := Prog Act (fun _ => Unit) α

def vTaskDelete (h : Handle) : Code Unit := .act (.vTaskDelete h) .ret

def vQueueDelete (q : Handle) : Code Unit := .act (.vQueueDelete q) .ret

def vSemaphoreDelete (m : Handle) : Code Unit := .act (.vSemaphoreDelete m) .ret

/-- `~TaskInterface()` -/
def destructor (f : Fields) : Code Unit := do
  -- Without a test of `taskStarted` or of the handle.
  vTaskDelete f.taskHandler
  Prog.when (f.rxQueue ≠ 0) do
    vQueueDelete f.rxQueue
  Prog.when (f.rxSema ≠ 0) do
    vSemaphoreDelete f.rxSema

/-! ## Objects and tasks -/

inductive Phase where
  | alive
  /-- The task `caller` runs the destructor, of which `rest` is left. -/
  | destroying (caller : Handle) (rest : Code Unit)
  /-- The task that ran the destructor has deleted itself in it. -/
  | abandoned
  | destroyed

/-- The destructor has ended. -/
def Phase.ended : Phase → Bool
  | .destroyed => true
  | _ => false

/-- The destructor has not yet called `vTaskDelete`. -/
def Phase.pending : Phase → Bool
  | .alive => true
  | .destroying _ (.act (.vTaskDelete _) _) => true
  | _ => false

structure Obj where
  fields : Fields
  created : Created
  selfDeleted : Bool
  phase : Phase
  history : List (Entry Handle)

/-- A task of the kernel: another one, or the task of an object, in `run()` or past it. -/
inductive Task where
  | other
  | running (o : Nat)
  | returned (o : Nat)

structure Sys where
  live : Handle → Option Task
  objs : Nat → Option Obj
  count : Nat

namespace Sys

/-- Before the first construction. -/
def boot (others : Handle → Bool) : Sys where
  live h := if others h then some .other else none
  objs _ := none
  count := 0

def setObj (s : Sys) (o : Nat) (x : Obj) : Sys :=
  { s with objs := Function.update s.objs o (some x) }

/-- The task that a call of `vTaskDelete(h)` by `caller` deletes. -/
def target (caller h : Handle) : Handle :=
  if h = 0 then caller else h

def kill (s : Sys) (h : Handle) : Sys :=
  { s with live := Function.update s.live h none }

/-! ## Steps -/

/-- A new object.  A task that is created gets a handle that no task has. -/
def construct (s : Sys) (garbage rxQueue rxSema : Handle) (c : Created) : Option Sys :=
  let x : Obj :=
    { fields := TaskInterface.construct garbage rxQueue rxSema c
      created := c
      selfDeleted := false
      phase := .alive
      history := [] }
  match c with
  | .pdPASS h =>
      if h ≠ 0 ∧ (s.live h).isNone then
        some { s.setObj s.count { x with history := [.acquire h] } with
          live := Function.update s.live h (some (.running s.count))
          count := s.count + 1 }
      else
        none
  | .errCouldNotAllocateRequiredMemory => some { s.setObj s.count x with count := s.count + 1 }

/-- `run()` of the task `h` returns. -/
def runReturns (s : Sys) (h : Handle) : Option Sys :=
  match s.live h with
  | some (.running o) => some { s with live := Function.update s.live h (some (.returned o)) }
  | _ => none

/-- The last call of `taskFunctionAdapter`: `vTaskDelete(taskInterface->taskHandler)`. -/
def adapter (s : Sys) (h : Handle) : Option Sys :=
  match s.live h with
  | some (.returned o) =>
      (s.objs o).map fun x =>
        (s.setObj o { x with
          selfDeleted := true
          history := .release x.fields.taskHandler :: x.history }).kill
            (target h x.fields.taskHandler)
  | _ => none

/-- The task `caller` destroys the object `o`. -/
def destroy (s : Sys) (o : Nat) (caller : Handle) : Option Sys :=
  match s.objs o, s.live caller with
  | some x, some _ =>
      match x.phase with
      | .alive =>
          some (s.setObj o
            { x with phase := .destroying caller (TaskInterface.destructor x.fields) })
      | _ => none
  | _, _ => none

/-- The next statement of the destructor of `o`. -/
def destructor (s : Sys) (o : Nat) : Option Sys :=
  match s.objs o with
  | none => none
  | some x =>
      match x.phase with
      | .destroying caller (.act (.vTaskDelete h) k) =>
          let phase :=
            if target caller h = caller then Phase.abandoned else .destroying caller (k ())
          some ((s.setObj o { x with
            phase := phase, history := .release h :: x.history }).kill (target caller h))
      | .destroying caller (.act (.vQueueDelete _) k) =>
          some (s.setObj o { x with phase := .destroying caller (k ()) })
      | .destroying caller (.act (.vSemaphoreDelete _) k) =>
          some (s.setObj o { x with phase := .destroying caller (k ()) })
      | .destroying _ (.ret _) => some (s.setObj o { x with phase := .destroyed })
      | _ => none

end Sys

inductive Label where
  | construct (garbage rxQueue rxSema : Handle) (c : Created)
  | runReturns (h : Handle)
  | adapter (h : Handle)
  | destroy (o : Nat) (caller : Handle)
  | destructor (o : Nat)

def step : Label → Sys → Option Sys
  | .construct garbage rxQueue rxSema c, s => s.construct garbage rxQueue rxSema c
  | .runReturns h, s => s.runReturns h
  | .adapter h, s => s.adapter h
  | .destroy o caller, s => s.destroy o caller
  | .destructor o, s => s.destructor o

/-! ## The property -/

/-- No handle is passed to `vTaskDelete` that `start` did not obtain for the object, and none twice;
at the end of the destructor the one that was obtained has been passed. -/
structure Obj.DeletesOwn (x : Obj) : Prop where
  only : ∀ h, released h x.history ≤ obtained h x.history
  atEnd : x.phase.ended = true → ∀ h, released h x.history = obtained h x.history

def Sys.DeletesOwn (s : Sys) : Prop :=
  ∀ o x, s.objs o = some x → x.DeletesOwn

/-- When a destructor calls `vTaskDelete`, the creation of the task has succeeded, and the task has
not returned from `run()` and deleted itself. -/
def Timely (s : Sys) : Label → Prop
  | .destructor o => ∀ x, s.objs o = some x → x.phase.pending = true →
      x.created.code = 1 ∧ x.selfDeleted = false
  | _ => True

/-! ## What is left of a destructor -/

/-- The code does not call `vTaskDelete`. -/
def Quiet : Code Unit → Prop
  | .ret _ => True
  | .act (.vTaskDelete _) _ => False
  | .act (.vQueueDelete _) k => Quiet (k ())
  | .act (.vSemaphoreDelete _) k => Quiet (k ())

theorem Quiet.bind {p : Code Unit} {g : Unit → Code Unit} (hp : Quiet p)
    (hg : ∀ x, Quiet (g x)) : Quiet (p.bind g) := by
  induction p with
  | ret x => exact hg x
  | act a k ih =>
      cases a with
      | vTaskDelete h => exact hp.elim
      | vQueueDelete q => exact ih () hp
      | vSemaphoreDelete m => exact ih () hp

theorem quiet_when (c : Prop) [Decidable c] {p : Code Unit} (hp : Quiet p) :
    Quiet (Prog.when c p) := by
  by_cases hc : c
  · simpa [hc] using hp
  · simp [hc, Quiet]

theorem quiet_vQueueDelete (q : Handle) : Quiet (vQueueDelete q) := trivial

theorem quiet_vSemaphoreDelete (m : Handle) : Quiet (vSemaphoreDelete m) := trivial

/-- The destructor calls `vTaskDelete` first, and once. -/
theorem destructor_eq (f : Fields) :
    ∃ rest, destructor f = .act (.vTaskDelete f.taskHandler) (fun _ => rest) ∧ Quiet rest :=
  ⟨_, rfl, (quiet_when _ (quiet_vQueueDelete _)).bind fun _ =>
    quiet_when _ (quiet_vSemaphoreDelete _)⟩

theorem Phase.not_pending_of_quiet {caller : Handle} {rest : Code Unit} (h : Quiet rest) :
    (Phase.destroying caller rest).pending = false := by
  cases rest with
  | ret x => rfl
  | act a k =>
      cases a with
      | vTaskDelete h' => exact h.elim
      | vQueueDelete q => rfl
      | vSemaphoreDelete m => rfl

/-! ## The invariant -/

/-- The handle of the object's task, until it is passed to `vTaskDelete`. -/
def Obj.holds (x : Obj) : Option Handle :=
  match x.created with
  | .pdPASS h => if x.selfDeleted = false ∧ x.phase.pending = true then some h else none
  | .errCouldNotAllocateRequiredMemory => none

theorem Obj.holds_eq_some {x : Obj} {h : Handle} :
    x.holds = some h ↔ x.created = .pdPASS h ∧ x.selfDeleted = false ∧ x.phase.pending = true := by
  cases hc : x.created with
  | pdPASS h' =>
      by_cases hp : x.selfDeleted = false ∧ x.phase.pending = true
      · simp [holds, hc, hp]
      · simp only [holds, hc, if_neg hp, reduceCtorEq, false_iff]
        exact fun hall => hp hall.2
  | errCouldNotAllocateRequiredMemory => simp [holds, hc]

structure Obj.Inv (x : Obj) : Prop where
  settled : Settles x.history x.holds
  handler : ∀ h, x.created = .pdPASS h → x.fields.taskHandler = h ∧ h ≠ 0
  rest : ∀ caller rest, x.phase = .destroying caller rest →
    rest = TaskInterface.destructor x.fields ∨ Quiet rest

theorem Obj.Inv.deletesOwn {x : Obj} (h : x.Inv) : x.DeletesOwn := by
  refine ⟨h.settled.released_le, ?_⟩
  intro hended
  -- A destructor that has ended is past its `vTaskDelete`.
  have hnone : x.holds = none := by
    rw [Option.eq_none_iff_forall_ne_some]
    intro h' hholds
    have hpending := (Obj.holds_eq_some.1 hholds).2.2
    cases hp : x.phase <;> simp_all [Phase.ended, Phase.pending]
  exact (hnone ▸ h.settled).released_eq

/-- Past `vTaskDelete` the destructor does not call it again. -/
theorem Obj.Inv.quiet {x : Obj} (h : x.Inv) {caller : Handle} {rest : Code Unit}
    (hphase : x.phase = .destroying caller rest) (hpending : x.phase.pending = false) :
    Quiet rest := by
  rcases h.rest caller rest hphase with hrest | hrest
  · rcases destructor_eq x.fields with ⟨rest', hall, _⟩
    rw [hphase, hrest, hall] at hpending
    cases hpending
  · exact hrest

/-- The task `h` belongs to the object `o`. -/
def Sys.TaskOf (s : Sys) (h : Handle) (o : Nat) : Prop :=
  s.live h = some (.running o) ∨ s.live h = some (.returned o)

theorem Sys.TaskOf.congr {s t : Sys} {h : Handle} {o : Nat} (htask : t.TaskOf h o)
    (hlive : t.live h = s.live h) : s.TaskOf h o := by
  rcases htask with htask | htask
  · exact Or.inl (hlive.symm.trans htask)
  · exact Or.inr (hlive.symm.trans htask)

structure Sys.Inv (s : Sys) : Prop where
  fresh : ∀ o, s.count ≤ o → s.objs o = none
  obj : ∀ o x, s.objs o = some x → x.Inv
  task : ∀ h o, s.TaskOf h o → ∃ x, s.objs o = some x ∧ x.holds = some h

namespace Sys.Inv

variable {s t : Sys}

theorem deletesOwn (h : s.Inv) : s.DeletesOwn :=
  fun o x hx => (h.obj o x hx).deletesOwn

theorem boot (others : Handle → Bool) : (Sys.boot others).Inv where
  fresh _ _ := rfl
  obj _ _ h := by cases h
  task h o htask := by
    rcases htask with htask | htask <;>
      · simp only [Sys.boot] at htask
        split at htask <;> cases htask

theorem fresh_setObj (h : s.Inv) {o : Nat} {x : Obj} (hx : s.objs o = some x) (y : Obj)
    (o' : Nat) (ho' : s.count ≤ o') : (s.setObj o y).objs o' = none := by
  have hne : o' ≠ o := by
    rintro rfl
    cases (h.fresh _ ho').symm.trans hx
  exact (Function.update_of_ne hne _ _).trans (h.fresh o' ho')

theorem obj_setObj (h : s.Inv) {o : Nat} {y : Obj} (hy : y.Inv) :
    ∀ o' z, (s.setObj o y).objs o' = some z → z.Inv := by
  intro o' z hz
  by_cases ho : o' = o
  · subst ho
    simp only [Sys.setObj, Function.update_self, Option.some.injEq] at hz
    exact hz ▸ hy
  · simp only [Sys.setObj, Function.update_of_ne ho] at hz
    exact h.obj o' z hz

/-- An object changes, and keeps its task if it has one. -/
theorem setObj (h : s.Inv) {o : Nat} {x y : Obj} (hx : s.objs o = some x) (hy : y.Inv)
    (hholds : y.holds = x.holds) : (s.setObj o y).Inv := by
  refine ⟨h.fresh_setObj hx y, h.obj_setObj hy, ?_⟩
  intro h' o' htask
  rcases h.task h' o' htask with ⟨z, hz, hzholds⟩
  by_cases ho : o' = o
  · subst ho
    cases hz.symm.trans hx
    exact ⟨y, Function.update_self _ _ _, hholds.trans hzholds⟩
  · exact ⟨z, (Function.update_of_ne ho _ _).trans hz, hzholds⟩

/-- The task of an object is deleted on its behalf. -/
theorem release (h : s.Inv) {o : Nat} {x y : Obj} {h' : Handle} (hx : s.objs o = some x)
    (hheld : x.holds = some h') (hy : y.Inv) : ((s.setObj o y).kill h').Inv := by
  refine ⟨h.fresh_setObj hx y, h.obj_setObj hy, ?_⟩
  intro k o' htask
  have hk : k ≠ h' := by
    rintro rfl
    rcases htask with htask | htask <;> simp [Sys.kill] at htask
  have hold : s.TaskOf k o' := htask.congr (Function.update_of_ne hk _ _)
  rcases h.task k o' hold with ⟨z, hz, hzholds⟩
  -- The object has let its only handle go.
  have ho : o' ≠ o := by
    rintro rfl
    cases hz.symm.trans hx
    exact hk (Option.some.inj (hzholds.symm.trans hheld))
  exact ⟨z, (Function.update_of_ne ho _ _).trans hz, hzholds⟩

/-- There is no object yet at the place of the next one. -/
theorem fresh_add (h : s.Inv) (y : Obj) (o : Nat) (ho : s.count + 1 ≤ o) :
    (s.setObj s.count y).objs o = none :=
  (Function.update_of_ne (Nat.ne_of_gt ho) _ _).trans (h.fresh o (Nat.le_of_lt ho))

/-- A new object leaves the tasks of the others to them. -/
theorem task_add (h : s.Inv) (y : Obj) {h' : Handle} {o : Nat} (htask : s.TaskOf h' o) :
    ∃ x, (s.setObj s.count y).objs o = some x ∧ x.holds = some h' := by
  rcases h.task h' o htask with ⟨x, hx, hholds⟩
  have ho : o ≠ s.count := by
    rintro rfl
    cases (h.fresh _ (Nat.le_refl _)).symm.trans hx
  exact ⟨x, (Function.update_of_ne ho _ _).trans hx, hholds⟩

theorem construct (h : s.Inv) {garbage rxQueue rxSema : Handle} {c : Created}
    (hstep : s.construct garbage rxQueue rxSema c = some t) : t.Inv := by
  cases c with
  | errCouldNotAllocateRequiredMemory =>
      simp only [Sys.construct, Option.some.injEq] at hstep
      -- No task, and the handle is what the memory held.
      subst hstep
      refine ⟨h.fresh_add _, h.obj_setObj ⟨Settles.nil, ?_, ?_⟩, ?_⟩
      · intro k hk
        cases hk
      · intro caller rest hrest
        cases hrest
      · intro h' o htask
        exact h.task_add _ htask
  | pdPASS k =>
      simp only [Sys.construct] at hstep
      split at hstep
      · rename_i hk
        rcases hk with ⟨hk0, hfree⟩
        simp only [Option.some.injEq] at hstep
        subst hstep
        refine ⟨h.fresh_add _, h.obj_setObj ⟨Settles.nil.acquire k, ?_, ?_⟩, ?_⟩
        · intro k' hk'
          cases hk'
          exact ⟨rfl, hk0⟩
        · intro caller rest hrest
          cases hrest
        · intro h' o htask
          by_cases hh : h' = k
          · -- The new task belongs to the new object.
            subst hh
            have ho : o = s.count := by
              rcases htask with htask | htask
              · simpa [eq_comm] using htask
              · simp at htask
            subst ho
            exact ⟨_, Function.update_self _ _ _, rfl⟩
          · have hbefore : s.TaskOf h' o := htask.congr (Function.update_of_ne hh _ _)
            exact h.task_add _ hbefore
      · cases hstep

theorem runReturns (h : s.Inv) {k : Handle} (hstep : s.runReturns k = some t) : t.Inv := by
  simp only [Sys.runReturns] at hstep
  split at hstep
  · rename_i o hrun
    cases hstep
    refine ⟨h.fresh, h.obj, ?_⟩
    intro h' o' htask
    by_cases hh : h' = k
    · subst hh
      have ho : o' = o := by
        rcases htask with htask | htask
        · simp at htask
        · simpa [eq_comm] using htask
      exact ho ▸ h.task h' o (Or.inl hrun)
    · exact h.task h' o' (htask.congr (Function.update_of_ne hh _ _))
  · cases hstep

theorem adapter (h : s.Inv) {k : Handle} (hstep : s.adapter k = some t) : t.Inv := by
  simp only [Sys.adapter] at hstep
  split at hstep
  · rename_i o hret
    rcases h.task k o (Or.inr hret) with ⟨x, hx, hholds⟩
    rcases Obj.holds_eq_some.1 hholds with ⟨hcreated, _, _⟩
    have hinv := h.obj o x hx
    rcases hinv.handler k hcreated with ⟨hhandler, hk0⟩
    -- The adapter names its own task: the handle it finds is the one that was obtained.
    simp only [hx, Option.map_some, Option.some.injEq] at hstep
    subst hstep
    rw [hhandler, show Sys.target k k = k from if_neg hk0]
    refine h.release hx hholds ⟨?_, ?_, hinv.rest⟩
    · have hnone : ({ x with
            selfDeleted := true, history := .release k :: x.history } : Obj).holds = none := by
        rw [Option.eq_none_iff_forall_ne_some]
        intro h' hh'
        cases (Obj.holds_eq_some.1 hh').2.1
      rw [hnone]
      exact (hholds ▸ hinv.settled).release
    · intro h' hc
      exact hinv.handler h' hc
  · cases hstep

theorem destroy (h : s.Inv) {o : Nat} {caller : Handle} (hstep : s.destroy o caller = some t) :
    t.Inv := by
  simp only [Sys.destroy] at hstep
  split at hstep
  · rename_i x _ hx _
    split at hstep
    · rename_i halive
      cases hstep
      have hinv := h.obj o x hx
      have hholds : ({ x with phase := .destroying caller (TaskInterface.destructor x.fields) } :
          Obj).holds = x.holds := by
        rcases destructor_eq x.fields with ⟨rest, hcode, _⟩
        simp only [Obj.holds, halive, hcode, Phase.pending]
      refine h.setObj hx ⟨?_, hinv.handler, ?_⟩ hholds
      · rw [hholds]
        exact hinv.settled
      · intro caller' rest hrest
        cases hrest
        exact Or.inl rfl
    · cases hstep
  · cases hstep

/-- A statement of the destructor that is not `vTaskDelete`. -/
theorem advance (h : s.Inv) {o : Nat} {x : Obj} {p : Phase} (hx : s.objs o = some x)
    (hpending : x.phase.pending = false) (hp : p.pending = false)
    (hrest : ∀ caller rest, p = .destroying caller rest → Quiet rest) :
    (s.setObj o { x with phase := p }).Inv := by
  have hinv := h.obj o x hx
  have hholds : ({ x with phase := p } : Obj).holds = x.holds := by
    simp only [Obj.holds, hpending, hp]
  refine h.setObj hx ⟨?_, hinv.handler, ?_⟩ hholds
  · rw [hholds]
    exact hinv.settled
  · intro caller rest hcode
    exact Or.inr (hrest caller rest hcode)

/-- The `vTaskDelete` of a destructor whose object still has its task. -/
theorem deleteTask (h : s.Inv) {o : Nat} {x : Obj} {caller k' : Handle} {k : Unit → Code Unit}
    (hx : s.objs o = some x) (hphase : x.phase = .destroying caller (.act (.vTaskDelete k') k))
    (hcode : x.created.code = 1) (hself : x.selfDeleted = false) :
    ((s.setObj o { x with
        phase := if Sys.target caller k' = caller then .abandoned else .destroying caller (k ())
        history := .release k' :: x.history }).kill
      (Sys.target caller k')).Inv := by
  have hinv := h.obj o x hx
  have hpending : x.phase.pending = true := by
    rw [hphase]
    rfl
  -- What is left is the whole destructor: it does not call `vTaskDelete` a second time.
  rcases destructor_eq x.fields with ⟨rest, hall, hquiet⟩
  have hrest : (Prog.act (.vTaskDelete k') k : Code Unit) = TaskInterface.destructor x.fields := by
    rcases hinv.rest caller _ hphase with hrest | hrest
    · exact hrest
    · exact hrest.elim
  cases hrest.trans hall
  -- `start` has stored the handle, and no other object has it.
  rcases Created.eq_pdPASS hcode with ⟨k, hcreated⟩
  rcases hinv.handler k hcreated with ⟨hhandler, hk0⟩
  have hholds : x.holds = some k := Obj.holds_eq_some.2 ⟨hcreated, hself, hpending⟩
  rw [hhandler, show Sys.target caller k = k from if_neg hk0]
  refine h.release hx hholds ⟨?_, hinv.handler, ?_⟩
  · have hnone : ({ x with
        phase := if k = caller then Phase.abandoned else .destroying caller rest
        history := .release k :: x.history } : Obj).holds = none := by
      rw [Option.eq_none_iff_forall_ne_some]
      intro h' hh'
      have hp := (Obj.holds_eq_some.1 hh').2.2
      by_cases hc : k = caller
      · rw [if_pos hc] at hp
        cases hp
      · rw [if_neg hc, Phase.not_pending_of_quiet hquiet] at hp
        cases hp
    rw [hnone]
    exact (hholds ▸ hinv.settled).release
  · intro caller' rest' hp
    dsimp only at hp
    split at hp
    · cases hp
    · cases hp
      exact Or.inr hquiet

theorem destructor (h : s.Inv) {o : Nat} (hok : Timely s (.destructor o))
    (hstep : s.destructor o = some t) : t.Inv := by
  simp only [Sys.destructor] at hstep
  split at hstep
  · cases hstep
  · rename_i x hx
    have hinv := h.obj o x hx
    split at hstep
    · rename_i caller k' k hphase
      cases hstep
      -- `vTaskDelete` is the one deletion of the destructor that reaches a task.
      have hpending : x.phase.pending = true := by
        rw [hphase]
        rfl
      rcases hok x hx hpending with ⟨hcode, hself⟩
      exact h.deleteTask hx hphase hcode hself
    · -- The queue, and in the next case the semaphore, is no matter of the tasks.
      rename_i caller q k hphase
      cases hstep
      have hleft := hinv.quiet hphase (by rw [hphase]; rfl)
      have hquiet : Quiet (k ()) := hleft
      refine h.advance hx (by rw [hphase]; rfl) (Phase.not_pending_of_quiet hquiet) ?_
      intro caller' rest hp
      cases hp
      exact hquiet
    · rename_i caller m k hphase
      cases hstep
      have hleft := hinv.quiet hphase (by rw [hphase]; rfl)
      have hquiet : Quiet (k ()) := hleft
      refine h.advance hx (by rw [hphase]; rfl) (Phase.not_pending_of_quiet hquiet) ?_
      intro caller' rest hp
      cases hp
      exact hquiet
    · rename_i caller u hphase
      cases hstep
      refine h.advance hx (by rw [hphase]; rfl) rfl ?_
      intro caller' rest hp
      cases hp
    · cases hstep

theorem step {l : Label} (h : s.Inv) (hstep : TaskInterface.step l s = some t)
    (hok : Timely s l) : t.Inv := by
  cases l with
  | construct garbage rxQueue rxSema c => exact h.construct hstep
  | runReturns k => exact h.runReturns hstep
  | adapter k => exact h.adapter hstep
  | destroy o caller => exact h.destroy hstep
  | destructor o => exact h.destructor hok hstep

/-- A destructor that comes too late, or for a task that was not created, passes a handle to
`vTaskDelete` that the object does not hold. -/
theorem timely_of_deletesOwn {l : Label} (h : s.Inv) (hstep : TaskInterface.step l s = some t)
    (ht : t.DeletesOwn) : Timely s l := by
  cases l with
  | destructor o =>
      intro x hx hpending
      by_contra hlate
      -- The object does not hold the handle any more, or never did.
      have hnone : x.holds = none := by
        rw [Option.eq_none_iff_forall_ne_some]
        intro k hk
        rcases Obj.holds_eq_some.1 hk with ⟨hcreated, hself, _⟩
        exact hlate ⟨by rw [hcreated]; rfl, hself⟩
      simp only [TaskInterface.step, Sys.destructor, hx] at hstep
      split at hstep
      · rename_i caller k' k hphase
        cases hstep
        have hover := (h.obj o x hx).settled.overdrawn (h := k') (by simp [hnone])
        exact absurd ((ht o _ (Function.update_self _ _ _)).only k') (Nat.not_le.2 hover)
      all_goals simp_all [Phase.pending]
  | _ => trivial

end Sys.Inv

/-! ## Runs -/

/-- Every object deletes its own task and no other, in every state of every run. -/
def AlwaysDeletesOwn : Prop :=
  ∀ (others : Handle → Bool) (ls : List Label) (t : Sys),
    Run step Free (Sys.boot others) ls t → t.DeletesOwn

/-- The creation fails, and the memory of the object held the handle of another task. -/
theorem not_alwaysDeletesOwn : ¬ AlwaysDeletesOwn := by
  intro h
  have hrun : Run step Free (Sys.boot fun k => k = 1 ∨ k = 2)
      [.construct 2 0 0 .errCouldNotAllocateRequiredMemory, .destroy 0 1, .destructor 0] _ :=
    .cons trivial rfl (.cons trivial rfl (.single trivial rfl))
  have hown := (h _ _ _ hrun 0 _ rfl).only 2
  exact absurd hown (by decide)

/-- In a run every object deletes its own task and no other, in each state visited, exactly if every
destructor comes to its `vTaskDelete` when the creation has succeeded and the task has not yet
deleted itself. -/
theorem deletesOwn_iff_timely (others : Handle → Bool) (ls : List Label) (t : Sys) :
    (Run step (fun s _ => s.DeletesOwn) (Sys.boot others) ls t ∧ t.DeletesOwn) ↔
      Run step Timely (Sys.boot others) ls t :=
  Run.stays_iff (fun _ h => h.deletesOwn) (fun _ _ _ h hstep hok => h.step hstep hok)
    (fun _ _ _ h hstep ht => h.timely_of_deletesOwn hstep ht) (Sys.Inv.boot others)

end TaskInterface
end PicoCppSdk
