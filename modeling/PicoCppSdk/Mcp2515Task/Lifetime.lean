import Mathlib.Logic.Function.Basic
import PicoCppSdk.Foundation.Transition

/-!
# Lifetime — who runs code on an `Mcp2515Task`, and when

The task of an object is created by the constructor of its base class `TaskInterface`, before the
members of `Mcp2515Task` are initialised, and it is deleted by the destructor of that base class,
after the destruction of the object has begun.  The pin callback that `initialInTask` registers
captures `this`, and nothing takes it out of `pinCallbacks` again.

A task of the application constructs, initialises and destroys objects at a priority of its own;
a fixed-priority scheduler with time slicing switches between it and the tasks of the objects, and
an edge on a pin interrupts whoever runs.
-/

namespace PicoCppSdk
namespace Mcp2515Task
namespace Lifetime

open Transition

/-! ## Objects -/

/-- How far construction or destruction has come. -/
inductive Phase where
  /-- The memory has been allocated. -/
  | raw
  /-- `Mcp2515(...)` is done. -/
  | mcp2515
  /-- `start()` has been called by `TaskInterface(...)`. -/
  | taskInterface
  /-- `TaskInterface(...)` is done; the members of `Mcp2515Task` are next. -/
  | members
  | live
  /-- `~Mcp2515Task()` has begun. -/
  | destroying
  /-- `~TaskInterface()` has begun. -/
  | base
  /-- `vTaskDelete` has returned. -/
  | taskDeleted
  | destroyed
  deriving DecidableEq

/-- Whose `run` a virtual call finds: that of `Mcp2515Task`, or the pure virtual one of
`TaskInterface`, while the object is no more than that. -/
inductive Vtable where
  | taskInterface
  | mcp2515Task
  deriving DecidableEq

def Phase.vtable : Phase → Vtable
  | .members | .live | .destroying => .mcp2515Task
  | _ => .taskInterface

/-- The value of a `TaskHandle_t`. -/
inductive Handle where
  | null
  | taskOf (o : Nat)
  | other
  deriving DecidableEq

/-- What `xTaskCreate` answers; if it fails, `taskHandler` keeps what its memory held. -/
inductive Created where
  | pdPASS
  | errCouldNotAllocateRequiredMemory (garbage : Handle)

/-- Where the task of an object is: before the call of `run` in `taskFunctionAdapter`, in
`Mcp2515Task::run`, or in the handler of a pure virtual call. -/
inductive At where
  | adapter
  | run
  | pureVirtual
  deriving DecidableEq

structure Task where
  pc : At
  ready : Bool

structure Obj where
  intPin : Nat
  priority : Nat
  phase : Phase
  taskHandler : Handle
  task : Option Task

/-! ## The application's task -/

/-- The parts of `initialInTask` around its delay and its registration. -/
inductive Init where
  | semaphores
  | delay
  | gpio
  | interrupts
  deriving DecidableEq

/-- The method that is being called; where a constructor or destructor is, the phase of its object
says. -/
inductive Call where
  | constructor (c : Created)
  | initialInTask (pc : Init)
  | destructor

structure Client where
  priority : Nat
  obj : Nat
  call : Call

/-- It sleeps in `vTaskDelay` only. -/
def Client.ready (cl : Client) : Bool :=
  match cl.call with
  | .initialInTask .delay => false
  | _ => true

structure Sys where
  objs : Nat → Option Obj
  count : Nat
  client : Option Client
  pinCallbacks : Nat → Option Nat
  /-- The executions of `run` and `irqHandler` so far: on which object, in which phase. -/
  executed : List (Nat × Phase)

/-- RP2040 has GP0–GP29. -/
def kNumGpios : Nat := 30

namespace Sys

def boot : Sys where
  objs _ := none
  count := 0
  client := none
  pinCallbacks _ := none
  executed := []

def setObj (s : Sys) (o : Nat) (x : Obj) : Sys :=
  { s with objs := Function.update s.objs o (some x) }

theorem setObj_self {s : Sys} {o : Nat} {x : Obj} (hx : s.objs o = some x) : s.setObj o x = s := by
  rw [setObj, ← hx, Function.update_eq_self]

theorem objs_setObj_self (s : Sys) (o : Nat) (x : Obj) : (s.setObj o x).objs o = some x :=
  Function.update_self _ _ _

theorem objs_setObj_of_ne {o o' : Nat} (h : o' ≠ o) (s : Sys) (x : Obj) :
    (s.setObj o x).objs o' = s.objs o' :=
  Function.update_of_ne h _ _

/-- No task of an object is ready at a priority above `p`. -/
def TasksWithin (s : Sys) (p : Nat) : Prop :=
  ∀ o, o < s.count → ∀ x ∈ s.objs o, ∀ t ∈ x.task, t.ready = true → x.priority ≤ p

/-- The application's task is not ready at a priority above `p`. -/
def ClientWithin (s : Sys) (p : Nat) : Prop :=
  ∀ cl ∈ s.client, cl.ready = true → cl.priority ≤ p

instance (s : Sys) (p : Nat) : Decidable (s.TasksWithin p) :=
  inferInstanceAs (Decidable (∀ o, o < s.count → ∀ x ∈ s.objs o, ∀ t ∈ x.task, _))

instance (s : Sys) (p : Nat) : Decidable (s.ClientWithin p) :=
  inferInstanceAs (Decidable (∀ cl ∈ s.client, _))

/-! ## Steps of the application's task -/

/-- `vTaskDelete(h)`, as far as it concerns the tasks of objects. -/
def kill (s : Sys) : Handle → Sys
  | .taskOf o =>
      match s.objs o with
      | some x => s.setObj o { x with task := none }
      | none => s
  | _ => s

/-- The constructor is called, by a task of priority `p`; its arguments are the pin and the priority
of the new task. -/
def construct (s : Sys) (intPin priority p : Nat) (c : Created) : Option Sys :=
  if s.client.isNone ∧ s.TasksWithin p then
    some { s.setObj s.count
        { intPin := intPin
          priority := priority
          phase := .raw
          taskHandler := .null
          task := none } with
      count := s.count + 1
      client := some { priority := p, obj := s.count, call := .constructor c } }
  else
    none

/-- Another method is called on a live object. -/
def call (s : Sys) (o p : Nat) (c : Call) (phase : Phase) : Option Sys :=
  match s.objs o with
  | some x =>
      if s.client.isNone ∧ s.TasksWithin p ∧ x.phase = .live then
        some { s.setObj o { x with phase := phase } with
          client := some { priority := p, obj := o, call := c } }
      else
        none
  | none => none

def initialInTask (s : Sys) (o p : Nat) : Option Sys :=
  s.call o p (.initialInTask .semaphores) .live

def destroy (s : Sys) (o p : Nat) : Option Sys :=
  s.call o p .destructor .destroying

/-- The object after `start()`. -/
def started (o : Nat) (x : Obj) : Created → Obj
  | .pdPASS =>
      { x with
        phase := .taskInterface
        taskHandler := .taskOf o
        task := some { pc := .adapter, ready := true } }
  | .errCouldNotAllocateRequiredMemory garbage =>
      { x with phase := .taskInterface, taskHandler := garbage }

/-- The next step of the method `cl.call` on its object `x`. -/
def advance (s : Sys) (cl : Client) (x : Obj) : Option Sys :=
  match cl.call, x.phase with
  | .constructor _, .raw => some (s.setObj cl.obj { x with phase := .mcp2515 })
  | .constructor c, .mcp2515 => some (s.setObj cl.obj (started cl.obj x c))
  | .constructor _, .taskInterface => some (s.setObj cl.obj { x with phase := .members })
  | .constructor _, .members =>
      some { s.setObj cl.obj { x with phase := .live } with client := none }
  | .initialInTask .semaphores, _ =>
      some { s with client := some { cl with call := .initialInTask .delay } }
  | .initialInTask .gpio, _ =>
      some { s with
        pinCallbacks :=
          if x.intPin < kNumGpios then
            Function.update s.pinCallbacks x.intPin (some cl.obj)
          else
            s.pinCallbacks
        client := some { cl with call := .initialInTask .interrupts } }
  | .initialInTask .interrupts, _ => some { s with client := none }
  | .destructor, .destroying => some (s.setObj cl.obj { x with phase := .base })
  | .destructor, .base =>
      -- With a null handle the caller deletes itself and does not come back.
      if x.taskHandler = .null then some { s with client := none }
      else some ((s.setObj cl.obj { x with phase := .taskDeleted }).kill x.taskHandler)
  | .destructor, .taskDeleted =>
      some { s.setObj cl.obj { x with phase := .destroyed } with client := none }
  | _, _ => none

/-- The application's task goes on with the method it has called. -/
def clientStep (s : Sys) : Option Sys :=
  match s.client with
  | some cl =>
      if cl.ready = true ∧ s.TasksWithin cl.priority then
        match s.objs cl.obj with
        | some x => s.advance cl x
        | none => none
      else
        none
  | none => none

/-- Its delay in `initialInTask` is over. -/
def delayEnds (s : Sys) : Option Sys :=
  match s.client with
  | some ⟨p, o, .initialInTask .delay⟩ =>
      some { s with client := some { priority := p, obj := o, call := .initialInTask .gpio } }
  | _ => none

/-! ## Steps of the others -/

/-- The task of `o` performs its next step: the virtual call of `run`, or a step of `run`, which may
block.  What `run` waits for is left open. -/
def taskStep (s : Sys) (o : Nat) (blocks : Bool) : Option Sys :=
  match s.objs o with
  | some x =>
      match x.task with
      | some t =>
          if t.ready = true ∧ s.TasksWithin x.priority ∧ s.ClientWithin x.priority then
            match t.pc with
            | .adapter =>
                let pc := if x.phase.vtable = .mcp2515Task then At.run else At.pureVirtual
                some { s.setObj o { x with task := some { pc := pc, ready := true } } with
                  executed := (o, x.phase) :: s.executed }
            | .run =>
                some { s.setObj o { x with task := some { pc := .run, ready := !blocks } } with
                  executed := (o, x.phase) :: s.executed }
            | .pureVirtual => none
          else
            none
      | none => none
  | none => none

/-- What the task of `o` waits for has come. -/
def wake (s : Sys) (o : Nat) : Option Sys :=
  match s.objs o with
  | some x =>
      match x.task with
      | some t =>
          if t.ready = true then none
          else some (s.setObj o { x with task := some { t with ready := true } })
      | none => none
  | none => none

/-- An edge on a pin for which a callback was registered: `irqDispatcher` calls `irqHandler` on the
object that the callback captured. -/
def edge (s : Sys) (pin : Nat) : Option Sys :=
  match s.pinCallbacks pin with
  | some o =>
      match s.objs o with
      | some x => some { s with executed := (o, x.phase) :: s.executed }
      | none => none
  | none => none

end Sys

inductive Label where
  | construct (intPin priority p : Nat) (c : Created)
  | initialInTask (o p : Nat)
  | destroy (o p : Nat)
  | client
  | delayEnds
  | task (o : Nat) (blocks : Bool)
  | wake (o : Nat)
  | edge (pin : Nat)

def step : Label → Sys → Option Sys
  | .construct intPin priority p c, s => s.construct intPin priority p c
  | .initialInTask o p, s => s.initialInTask o p
  | .destroy o p, s => s.destroy o p
  | .client, s => s.clientStep
  | .delayEnds, s => s.delayEnds
  | .task o blocks, s => s.taskStep o blocks
  | .wake o, s => s.wake o
  | .edge pin, s => s.edge pin

/-! ## The property -/

/-- `run` and `irqHandler` have been executed on constructed, live objects only. -/
def Sys.OnLive (s : Sys) : Prop :=
  ∀ e ∈ s.executed, e.2 = .live

/-- Who constructs an object whose task is created, and who destroys an object that has a task, runs
at a higher priority than this task, and no object is destroyed while a pin callback refers to
it. -/
def Sound (s : Sys) : Label → Prop
  | .construct _ priority p .pdPASS => priority < p
  | .destroy o p =>
      (∀ x ∈ s.objs o, x.task.isSome = true → x.priority < p) ∧ ∀ pin, s.pinCallbacks pin ≠ some o
  | _ => True

/-! ## What every sound run keeps -/

/-- What is known of the object `x` that a method is being called on at priority `p`. -/
def Call.Fits (p : Nat) (x : Obj) : Call → Prop
  | .constructor c =>
      match x.phase with
      | .raw | .mcp2515 => x.task = none ∧ (c = .pdPASS → x.priority < p)
      | .taskInterface | .members => x.task.isSome = true → x.priority < p
      | _ => False
  | .initialInTask _ => x.phase = .live
  | .destructor =>
      match x.phase with
      | .destroying | .base => x.task.isSome = true → x.priority < p
      | .taskDeleted => x.task = none
      | _ => False

/-- The handle of an object that has a task is this task's, and the task has not run into a pure
virtual call. -/
def Obj.Owned (o : Nat) (x : Obj) : Prop :=
  ∀ t, x.task = some t → t.pc ≠ .pureVirtual ∧ x.taskHandler = .taskOf o

structure Sys.Inv (s : Sys) : Prop where
  fresh : ∀ o, s.count ≤ o → s.objs o = none
  onLive : s.OnLive
  callbacks : ∀ pin o, s.pinCallbacks pin = some o → ∃ x, s.objs o = some x ∧ x.phase = .live
  owned : ∀ o x, s.objs o = some x → x.Owned o
  busy : ∀ o x, s.objs o = some x → x.task.isSome = true →
    x.phase = .live ∨ ∃ cl, s.client = some cl ∧ cl.obj = o
  fits : ∀ cl, s.client = some cl → ∃ x, s.objs cl.obj = some x ∧ cl.call.Fits cl.priority x

theorem Call.Fits.setTask {p : Nat} {x : Obj} {c : Call} (h : c.Fits p x) {task : Option Task}
    (htask : task.isSome = true → x.task.isSome = true) :
    c.Fits p { x with task := task } := by
  have hnone : x.task = none → task = none := by
    intro hx
    cases task with
    | none => rfl
    | some t => simp [hx] at htask
  cases c with
  | constructor c =>
      cases hphase : x.phase <;> simp only [Fits, hphase] at h ⊢
      case raw => exact ⟨hnone h.1, h.2⟩
      case mcp2515 => exact ⟨hnone h.1, h.2⟩
      case taskInterface => exact fun ht => h (htask ht)
      case members => exact fun ht => h (htask ht)
  | initialInTask pc => exact h
  | destructor =>
      cases hphase : x.phase <;> simp only [Fits, hphase] at h ⊢
      case destroying => exact fun ht => h (htask ht)
      case base => exact fun ht => h (htask ht)
      case taskDeleted => exact hnone h

/-- Where the object is not live, the caller is ready, at a higher priority than its task. -/
theorem Call.Fits.above {p : Nat} {x : Obj} {c : Call} (h : c.Fits p x) (hphase : x.phase ≠ .live)
    (htask : x.task.isSome = true) (o : Nat) :
    (Client.mk p o c).ready = true ∧ x.priority < p := by
  cases c with
  | constructor c =>
      refine ⟨rfl, ?_⟩
      cases hx : x.phase <;> simp only [Fits, hx] at h
      case raw => simp [h.1] at htask
      case mcp2515 => simp [h.1] at htask
      case taskInterface => exact h htask
      case members => exact h htask
  | initialInTask pc => exact absurd h hphase
  | destructor =>
      refine ⟨rfl, ?_⟩
      cases hx : x.phase <;> simp only [Fits, hx] at h
      case destroying => exact h htask
      case base => exact h htask
      case taskDeleted => simp [h] at htask

namespace Sys.Inv

variable {s t : Sys} {o : Nat} {x y : Obj}

theorem boot : Sys.boot.Inv where
  fresh _ _ := rfl
  onLive e he := by cases he
  callbacks pin o h := by cases h
  owned o x h := by cases h
  busy o x h := by cases h
  fits cl h := by cases h

theorem lt_count (h : s.Inv) (hx : s.objs o = some x) : o < s.count := by
  by_contra hge
  cases (h.fresh o (Nat.le_of_not_lt hge)).symm.trans hx

theorem fresh_setObj (h : s.Inv) (hx : s.objs o = some x) (y : Obj) (o' : Nat)
    (ho' : s.count ≤ o') : (s.setObj o y).objs o' = none := by
  have hne : o' ≠ o := by
    rintro rfl
    exact absurd (h.lt_count hx) (Nat.not_lt.2 ho')
  exact (objs_setObj_of_ne hne s y).trans (h.fresh o' ho')

/-- The scheduler runs the task of an object only while the object is live. -/
theorem live_of_scheduled (h : s.Inv) (hx : s.objs o = some x) (htask : x.task.isSome = true)
    (hclient : s.ClientWithin x.priority) : x.phase = .live := by
  rcases h.busy o x hx htask with hlive | ⟨⟨p, o', c⟩, hcl, rfl⟩
  · exact hlive
  · rcases h.fits _ hcl with ⟨x', hx', hfits⟩
    cases hx.symm.trans hx'
    by_contra hphase
    rcases hfits.above hphase htask o' with ⟨hready, hlt⟩
    exact absurd (hclient _ hcl hready) (Nat.not_le.2 hlt)

/-- The application's task moves on: the object it works on becomes `y`. -/
theorem replace (h : s.Inv) {client : Option Client} (hx : s.objs o = some x)
    (hfree : ∀ cl, s.client = some cl → cl.obj = o) (howned : y.Owned o)
    (hcallback : y.phase = .live ∨ ∀ pin, s.pinCallbacks pin ≠ some o)
    (hbusy : y.task.isSome = true → y.phase = .live ∨ ∃ cl, client = some cl ∧ cl.obj = o)
    (hfits : ∀ cl, client = some cl → cl.obj = o ∧ cl.call.Fits cl.priority y) :
    ({ s.setObj o y with client := client } : Sys).Inv := by
  have hself := s.objs_setObj_self o y
  have hother : ∀ {o'}, o' ≠ o → (s.setObj o y).objs o' = s.objs o' :=
    fun hne => objs_setObj_of_ne hne s y
  refine ⟨h.fresh_setObj hx y, h.onLive, ?_, ?_, ?_, ?_⟩
  · intro pin o' hpin
    rcases h.callbacks pin o' hpin with ⟨z, hz, hlive⟩
    by_cases ho : o' = o
    · subst ho
      -- Object `o` is the new one; all others stay.
      rcases hcallback with hy | hnone
      · exact ⟨y, hself, hy⟩
      · exact absurd hpin (hnone pin)
    · exact ⟨z, (hother ho).trans hz, hlive⟩
  · intro o' z hz
    by_cases ho : o' = o
    · subst ho
      cases hself.symm.trans hz
      exact howned
    · exact h.owned o' z ((hother ho).symm.trans hz)
  · intro o' z hz htask
    by_cases ho : o' = o
    · subst ho
      cases hself.symm.trans hz
      exact hbusy htask
    · rcases h.busy o' z ((hother ho).symm.trans hz) htask with hlive | ⟨cl, hcl, rfl⟩
      · exact Or.inl hlive
      · exact absurd (hfree cl hcl) ho
  · intro cl hcl
    rcases hfits cl hcl with ⟨rfl, hy⟩
    exact ⟨y, hself, hy⟩

/-- The same while a live object stays as it is. -/
theorem setClient (h : s.Inv) {client : Option Client} (hx : s.objs o = some x)
    (hlive : x.phase = .live) (hfree : ∀ cl, s.client = some cl → cl.obj = o)
    (hfits : ∀ cl, client = some cl → cl.obj = o ∧ cl.call.Fits cl.priority x) :
    ({ s with client := client } : Sys).Inv := by
  have hreplace := h.replace hx hfree (h.owned o x hx) (Or.inl hlive) (fun _ => Or.inl hlive) hfits
  rwa [Sys.setObj_self hx] at hreplace

/-- The callback of a live object is registered. -/
theorem register (h : s.Inv) (hx : s.objs o = some x) (hlive : x.phase = .live) (pin : Nat) :
    ({ s with pinCallbacks := Function.update s.pinCallbacks pin (some o) } : Sys).Inv :=
  { h with
    callbacks := by
      intro pin' o' hpin
      by_cases hp : pin' = pin
      · subst hp
        simp only [Function.update_self, Option.some.injEq] at hpin
        subst hpin
        exact ⟨x, hx, hlive⟩
      · simp only [Function.update_of_ne hp] at hpin
        exact h.callbacks pin' o' hpin }

/-- The task of an object changes, or is deleted. -/
theorem setTask (h : s.Inv) (hx : s.objs o = some x) {task : Option Task}
    (htask : task.isSome = true → x.task.isSome = true) (hpc : ∀ k ∈ task, k.pc ≠ .pureVirtual) :
    (s.setObj o { x with task := task }).Inv := by
  have hself := s.objs_setObj_self o { x with task := task }
  have hother : ∀ {o'}, o' ≠ o → (s.setObj o { x with task := task }).objs o' = s.objs o' :=
    fun hne => objs_setObj_of_ne hne s _
  refine ⟨h.fresh_setObj hx _, h.onLive, ?_, ?_, ?_, ?_⟩
  · intro pin o' hpin
    rcases h.callbacks pin o' hpin with ⟨z, hz, hlive⟩
    by_cases ho : o' = o
    · subst ho
      cases hx.symm.trans hz
      exact ⟨_, hself, hlive⟩
    · exact ⟨z, (hother ho).trans hz, hlive⟩
  · intro o' z hz
    by_cases ho : o' = o
    · subst ho
      cases hself.symm.trans hz
      intro k hk
      -- The handle is the one of the task that was there before.
      rcases Option.isSome_iff_exists.1 (htask (Option.isSome_of_eq_some hk)) with ⟨k', hk'⟩
      exact ⟨hpc k hk, (h.owned o' x hx k' hk').2⟩
    · exact h.owned o' z ((hother ho).symm.trans hz)
  · intro o' z hz hsome
    by_cases ho : o' = o
    · subst ho
      cases hself.symm.trans hz
      exact h.busy o' x hx (htask hsome)
    · exact h.busy o' z ((hother ho).symm.trans hz) hsome
  · intro cl hcl
    rcases h.fits cl hcl with ⟨z, hz, hfits⟩
    by_cases ho : cl.obj = o
    · subst ho
      cases hx.symm.trans hz
      exact ⟨_, hself, hfits.setTask htask⟩
    · exact ⟨z, (hother ho).trans hz, hfits⟩

theorem kill (h : s.Inv) (hd : Handle) : (s.kill hd).Inv := by
  cases hd with
  | taskOf o =>
      cases hx : s.objs o with
      | none => simpa [Sys.kill, hx] using h
      | some x =>
          have hkill : (s.setObj o { x with task := none }).Inv :=
            h.setTask hx (by simp) (by simp)
          simpa [Sys.kill, hx] using hkill
  | null => exact h
  | other => exact h

/-- Code of a live object is executed. -/
theorem execute (h : s.Inv) (hlive : x.phase = .live) :
    ({ s with executed := (o, x.phase) :: s.executed } : Sys).Inv :=
  { h with
    onLive := by
      intro e he
      rcases List.mem_cons.1 he with rfl | he
      · exact hlive
      · exact h.onLive e he }

/-! One lemma for each kind of step -/

theorem construct (h : s.Inv) {intPin priority p : Nat} {c : Created}
    (hok : Sound s (.construct intPin priority p c))
    (hstep : s.construct intPin priority p c = some t) : t.Inv := by
  simp only [Sys.construct] at hstep
  split at hstep
  · rename_i hidle
    cases hstep
    -- The new object gets a number that no other has had.
    have hother : ∀ {o y}, s.objs o = some y → o ≠ s.count :=
      fun hy => Nat.ne_of_lt (h.lt_count hy)
    refine ⟨?_, h.onLive, ?_, ?_, ?_, ?_⟩
    · intro o ho
      exact (Function.update_of_ne (Nat.ne_of_gt ho) _ _).trans (h.fresh o (Nat.le_of_lt ho))
    · intro pin o hpin
      rcases h.callbacks pin o hpin with ⟨z, hz, hlive⟩
      exact ⟨z, (Function.update_of_ne (hother hz) _ _).trans hz, hlive⟩
    · intro o z hz k hk
      by_cases ho : o = s.count
      · subst ho
        simp only [Sys.setObj, Function.update_self, Option.some.injEq] at hz
        subst hz
        cases hk
      · simp only [Sys.setObj, Function.update_of_ne ho] at hz
        exact h.owned o z hz k hk
    · intro o z hz htask
      by_cases ho : o = s.count
      · exact Or.inr ⟨_, rfl, ho.symm⟩
      · simp only [Sys.setObj, Function.update_of_ne ho] at hz
        rcases h.busy o z hz htask with hlive | ⟨cl, hcl, -⟩
        · exact Or.inl hlive
        · simp [hcl] at hidle
    · intro cl hcl
      cases hcl
      refine ⟨_, Function.update_self _ _ _, rfl, ?_⟩
      rintro rfl
      exact hok
  · cases hstep

/-- Another method is called. -/
theorem call (h : s.Inv) {p : Nat} {c : Call} {phase : Phase}
    (hstep : s.call o p c phase = some t)
    (hcallback : phase = .live ∨ ∀ pin, s.pinCallbacks pin ≠ some o)
    (hfits : ∀ x ∈ s.objs o, c.Fits p { x with phase := phase }) : t.Inv := by
  simp only [Sys.call] at hstep
  split at hstep
  · rename_i x hx
    split at hstep
    · rename_i hidle
      cases hstep
      have hnone : s.client = none := Option.isNone_iff_eq_none.1 hidle.1
      refine h.replace hx ?_ (h.owned o x hx) hcallback (fun _ => Or.inr ⟨_, rfl, rfl⟩) ?_
      · intro cl hcl
        simp [hnone] at hcl
      · intro cl hcl
        cases hcl
        exact ⟨rfl, hfits x hx⟩
    · cases hstep
  · cases hstep

theorem initialInTask (h : s.Inv) {p : Nat} (hstep : s.initialInTask o p = some t) : t.Inv :=
  h.call hstep (Or.inl rfl) fun _ _ => rfl

theorem destroy (h : s.Inv) {p : Nat} (hok : Sound s (.destroy o p))
    (hstep : s.destroy o p = some t) : t.Inv :=
  h.call hstep (Or.inr hok.2) hok.1

/-! A call of priority `p` on the object `o`, whose state is `x` -/

section Call

variable {p : Nat} {c : Call}

theorem obj_of_client (hcl : s.client = some ⟨p, o, c⟩) (cl : Client) (hcl' : s.client = some cl) :
    cl.obj = o := by
  cases hcl.symm.trans hcl'
  rfl

theorem fits_of_client (h : s.Inv) (hcl : s.client = some ⟨p, o, c⟩) (hx : s.objs o = some x) :
    c.Fits p x := by
  rcases h.fits _ hcl with ⟨x', hx', hfits⟩
  cases hx.symm.trans hx'
  exact hfits

/-- Only live objects are referred to by a pin callback. -/
theorem no_callback (h : s.Inv) (hx : s.objs o = some x) (hphase : x.phase ≠ .live) (pin : Nat) :
    s.pinCallbacks pin ≠ some o := by
  intro hpin
  rcases h.callbacks pin o hpin with ⟨x', hx', hlive⟩
  cases hx.symm.trans hx'
  exact hphase hlive

/-- The object is replaced and the method goes on. -/
theorem goesOn (h : s.Inv) (hcl : s.client = some ⟨p, o, c⟩) (hx : s.objs o = some x)
    (hy : y.Owned o) (hlive : y.phase = .live ∨ x.phase ≠ .live) (hyfits : c.Fits p y) :
    (s.setObj o y).Inv := by
  change ({ s.setObj o y with client := s.client } : Sys).Inv
  refine h.replace hx (obj_of_client hcl) hy (hlive.imp_right (h.no_callback hx))
    (fun _ => Or.inr ⟨_, hcl, rfl⟩) ?_
  intro cl hcl'
  cases hcl.symm.trans hcl'
  exact ⟨rfl, hyfits⟩

/-- The object is replaced and the method returns. -/
theorem returns (h : s.Inv) (hcl : s.client = some ⟨p, o, c⟩) (hx : s.objs o = some x)
    (hy : y.Owned o) (hlive : y.phase = .live ∨ x.phase ≠ .live)
    (htask : y.task.isSome = true → y.phase = .live) :
    ({ s.setObj o y with client := none } : Sys).Inv := by
  refine h.replace hx (obj_of_client hcl) hy (hlive.imp_right (h.no_callback hx))
    (fun ht => Or.inl (htask ht)) ?_
  intro cl hcl'
  cases hcl'

theorem constructor {c : Created} (h : s.Inv) (hcl : s.client = some ⟨p, o, .constructor c⟩)
    (hx : s.objs o = some x) (hstep : s.advance ⟨p, o, .constructor c⟩ x = some t) : t.Inv := by
  have hfits := h.fits_of_client hcl hx
  have howned := h.owned o x hx
  cases hphase : x.phase <;> simp only [Sys.advance, hphase, reduceCtorEq] at hstep
  case raw =>
    cases hstep
    refine h.goesOn hcl hx howned (Or.inr (by simp [hphase])) ?_
    simpa [Call.Fits, hphase] using hfits
  case mcp2515 =>
    -- The task is created, below the priority of its creator, or it is not.
    simp only [Call.Fits, hphase] at hfits
    cases hstep
    cases c with
    | pdPASS =>
        refine h.goesOn hcl hx ?_ (Or.inr (by simp [hphase])) fun _ => hfits.2 rfl
        intro k hk
        cases hk
        exact ⟨by simp, rfl⟩
    | errCouldNotAllocateRequiredMemory garbage =>
        refine h.goesOn hcl hx ?_ (Or.inr (by simp [hphase])) fun htask => ?_
        · intro k hk
          cases hfits.1.symm.trans hk
        · simp [Sys.started, hfits.1] at htask
  case taskInterface =>
    cases hstep
    refine h.goesOn hcl hx howned (Or.inr (by simp [hphase])) ?_
    simpa [Call.Fits, hphase] using hfits
  case members =>
    cases hstep
    exact h.returns hcl hx howned (Or.inl rfl) fun _ => rfl

theorem initialising {pc : Init} (h : s.Inv) (hcl : s.client = some ⟨p, o, .initialInTask pc⟩)
    (hx : s.objs o = some x) (hstep : s.advance ⟨p, o, .initialInTask pc⟩ x = some t) : t.Inv := by
  have hlive : x.phase = .live := h.fits_of_client hcl hx
  have hnext : ∀ (pc' : Init) (cl : Client),
      some { priority := p, obj := o, call := .initialInTask pc' } = some cl →
        cl.obj = o ∧ cl.call.Fits cl.priority x := by
    rintro pc' cl ⟨⟩
    exact ⟨rfl, hlive⟩
  cases pc with
  | semaphores =>
      cases hstep
      exact h.setClient hx hlive (obj_of_client hcl) (hnext .delay)
  | delay => cases hstep
  | gpio =>
      cases hstep
      have hmoved := h.setClient hx hlive (obj_of_client hcl) (hnext .interrupts)
      -- A pin that does not exist is not registered.
      split
      · exact hmoved.register hx hlive x.intPin
      · exact hmoved
  | interrupts =>
      cases hstep
      refine h.setClient hx hlive (obj_of_client hcl) ?_
      rintro cl ⟨⟩

/-- `vTaskDelete(taskHandler)`: the task is the object's own, or the object has none. -/
theorem deleting (h : s.Inv) (hcl : s.client = some ⟨p, o, .destructor⟩) (hx : s.objs o = some x)
    (hphase : x.phase = .base) (hstep : s.advance ⟨p, o, .destructor⟩ x = some t) : t.Inv := by
  have howned := h.owned o x hx
  simp only [Sys.advance, hphase] at hstep
  cases htask : x.task with
  | some k =>
      -- The handle is the one of its own task, which is gone after this.
      have hown := (howned k htask).2
      rw [if_neg (by simp [hown]), Option.some.injEq] at hstep
      have hdeleted : (s.setObj o { x with phase := .taskDeleted }).kill x.taskHandler =
          s.setObj o { x with phase := .taskDeleted, task := none } := by
        rw [hown]
        simp [Sys.kill, Sys.setObj]
      rw [← hstep, hdeleted]
      refine h.goesOn hcl hx ?_ (Or.inr (by simp [hphase])) rfl
      intro k' hk'
      cases hk'
  | none =>
      by_cases hnull : x.taskHandler = .null
      · -- The caller has deleted itself.
        rw [if_pos hnull, Option.some.injEq] at hstep
        have hgone := h.returns hcl hx howned (Or.inr (by simp [hphase])) (by simp [htask])
        rw [Sys.setObj_self hx] at hgone
        exact hstep ▸ hgone
      · -- The handle is what the memory held, and may be that of another object's task.
        rw [if_neg hnull, Option.some.injEq] at hstep
        have hdeleted : (s.setObj o { x with phase := .taskDeleted }).Inv :=
          h.goesOn hcl hx howned (Or.inr (by simp [hphase])) htask
        exact hstep ▸ hdeleted.kill x.taskHandler

theorem destructor (h : s.Inv) (hcl : s.client = some ⟨p, o, .destructor⟩)
    (hx : s.objs o = some x) (hstep : s.advance ⟨p, o, .destructor⟩ x = some t) : t.Inv := by
  have hfits := h.fits_of_client hcl hx
  have howned := h.owned o x hx
  cases hphase : x.phase
  case base => exact h.deleting hcl hx hphase hstep
  all_goals simp only [Sys.advance, hphase, reduceCtorEq] at hstep
  case destroying =>
    cases hstep
    refine h.goesOn hcl hx howned (Or.inr (by simp [hphase])) ?_
    simpa [Call.Fits, hphase] using hfits
  case taskDeleted =>
    simp only [Call.Fits, hphase] at hfits
    cases hstep
    refine h.returns hcl hx howned (Or.inr (by simp [hphase])) ?_
    simp [hfits]

end Call

/-- The next step of a method whose object is `x`. -/
theorem advance (h : s.Inv) {cl : Client} (hcl : s.client = some cl) (hx : s.objs cl.obj = some x)
    (hstep : s.advance cl x = some t) : t.Inv := by
  rcases cl with ⟨p, o, c⟩
  cases c with
  | constructor c => exact h.constructor hcl hx hstep
  | initialInTask pc => exact h.initialising hcl hx hstep
  | destructor => exact h.destructor hcl hx hstep

theorem clientStep (h : s.Inv) (hstep : s.clientStep = some t) : t.Inv := by
  simp only [Sys.clientStep] at hstep
  split at hstep
  · rename_i cl hcl
    split at hstep
    · split at hstep
      · rename_i x hx
        exact h.advance hcl hx hstep
      · cases hstep
    · cases hstep
  · cases hstep

theorem delayEnds (h : s.Inv) (hstep : s.delayEnds = some t) : t.Inv := by
  simp only [Sys.delayEnds] at hstep
  split at hstep
  · rename_i p o hcl
    cases hstep
    rcases h.fits _ hcl with ⟨x, hx, hlive⟩
    refine h.setClient hx hlive ?_ ?_
    · intro cl hcl'
      cases hcl.symm.trans hcl'
      rfl
    · rintro cl ⟨⟩
      exact ⟨rfl, hlive⟩
  · cases hstep

theorem taskStep (h : s.Inv) {blocks : Bool} (hstep : s.taskStep o blocks = some t) : t.Inv := by
  simp only [Sys.taskStep] at hstep
  split at hstep
  · rename_i x hx
    split at hstep
    · rename_i k hk
      split at hstep
      · rename_i hsched
        have hsome : x.task.isSome = true := Option.isSome_of_eq_some hk
        have hlive : x.phase = .live := h.live_of_scheduled hx hsome hsched.2.2
        split at hstep
        · -- The virtual call finds the object complete.
          have hrun : x.phase.vtable = .mcp2515Task := by
            rw [hlive]
            rfl
          cases hstep
          simp only [hrun, if_true]
          exact (h.setTask hx (fun _ => hsome) (by simp)).execute hlive
        · cases hstep
          exact (h.setTask hx (fun _ => hsome) (by simp)).execute hlive
        · cases hstep
      · cases hstep
    · cases hstep
  · cases hstep

theorem wake (h : s.Inv) (hstep : s.wake o = some t) : t.Inv := by
  simp only [Sys.wake] at hstep
  split at hstep
  · rename_i x hx
    split at hstep
    · rename_i k hk
      split at hstep
      · cases hstep
      · cases hstep
        have hpc := (h.owned o x hx k hk).1
        exact h.setTask hx (fun _ => Option.isSome_of_eq_some hk) (by simpa using hpc)
    · cases hstep
  · cases hstep

theorem edge (h : s.Inv) {pin : Nat} (hstep : s.edge pin = some t) : t.Inv := by
  simp only [Sys.edge] at hstep
  split at hstep
  · rename_i o hpin
    rcases h.callbacks pin o hpin with ⟨x, hx, hlive⟩
    simp only [hx, Option.some.injEq] at hstep
    exact hstep ▸ h.execute hlive
  · cases hstep

theorem step {l : Label} (h : s.Inv) (hok : Sound s l) (hstep : Lifetime.step l s = some t) :
    t.Inv := by
  cases l with
  | construct intPin priority p c => exact h.construct hok hstep
  | initialInTask o p => exact h.initialInTask hstep
  | destroy o p => exact h.destroy hok hstep
  | client => exact h.clientStep hstep
  | delayEnds => exact h.delayEnds hstep
  | task o blocks => exact h.taskStep hstep
  | wake o => exact h.wake hstep
  | edge pin => exact h.edge hstep

end Sys.Inv

/-! ## What goes wrong otherwise -/

section Unsound

variable {s t : Sys} {o : Nat} {x : Obj} {k : Task}

/-- A ready task that the scheduler picks is executed, in whatever phase its object is. -/
theorem exists_executed (hx : s.objs o = some x) (hk : x.task = some k) (hready : k.ready = true)
    (hpc : k.pc ≠ .pureVirtual) (htasks : s.TasksWithin x.priority)
    (hclient : s.ClientWithin x.priority) :
    ∃ u, step (.task o false) s = some u ∧ (o, x.phase) ∈ u.executed := by
  simp only [step, Sys.taskStep, hx, hk, hready, htasks, hclient, and_self, if_true]
  cases hat : k.pc with
  | adapter => exact ⟨_, rfl, List.mem_cons_self⟩
  | run => exact ⟨_, rfl, List.mem_cons_self⟩
  | pureVirtual => exact absurd hat hpc

theorem not_onLive {u : Sys} (h : (o, x.phase) ∈ u.executed) (hphase : x.phase ≠ .live) :
    ¬ u.OnLive :=
  fun hlive => hphase (hlive _ h)

theorem tasksWithin_setObj {p : Nat} (h : s.TasksWithin p)
    (hx : ∀ k ∈ x.task, k.ready = true → x.priority ≤ p) : (s.setObj o x).TasksWithin p := by
  intro o' ho' x' hx' k' hk' hready
  by_cases ho : o' = o
  · subst ho
    cases (s.objs_setObj_self o' x).symm.trans hx'
    exact hx k' hk' hready
  · exact h o' ho' x' ((Sys.objs_setObj_of_ne ho s x).symm.trans hx') k' hk' hready

theorem tasksWithin_mono {p q : Nat} (h : s.TasksWithin p) (hle : p ≤ q) : s.TasksWithin q :=
  fun o ho x hx k hk hready => Nat.le_trans (h o ho x hx k hk hready) hle

/-- The step of a constructor or destructor at priority `p`. -/
theorem client_advance {p : Nat} {c : Call} (hcl : s.client = some ⟨p, o, c⟩)
    (hready : (Client.mk p o c).ready = true) (hx : s.objs o = some x) (htasks : s.TasksWithin p) :
    step .client s = s.advance ⟨p, o, c⟩ x := by
  simp only [step, Sys.clientStep, hcl, hready, htasks, and_self, if_true, hx]

/-- A new task that is not below its creator can run as soon as it has been created, before the
constructor is done. -/
theorem construct_unsound {intPin priority p : Nat} (hle : p ≤ priority)
    (hstep : step (.construct intPin priority p .pdPASS) s = some t) :
    ∃ u, Reachable step t u ∧ ¬ u.OnLive := by
  simp only [step, Sys.construct] at hstep
  split at hstep
  · rename_i hidle
    rw [Option.some.injEq] at hstep
    let x0 : Obj := ⟨intPin, priority, .raw, .null, none⟩
    let x1 : Obj := { x0 with phase := .mcp2515 }
    let x2 : Obj := Sys.started s.count x1 .pdPASS
    have hcl : t.client = some ⟨p, s.count, .constructor .pdPASS⟩ := by
      rw [← hstep]
    have hx0 : t.objs s.count = some x0 := by
      rw [← hstep]
      exact Function.update_self _ _ _
    have ht0 : t.TasksWithin p := by
      rw [← hstep]
      intro o ho x hx k hk hready
      by_cases hnew : o = s.count
      · subst hnew
        simp only [Sys.setObj, Function.update_self, Option.mem_def, Option.some.injEq] at hx
        subst hx
        cases hk
      · simp only [Sys.setObj, Function.update_of_ne hnew] at hx
        exact hidle.2 o (Nat.lt_of_le_of_ne (Nat.le_of_lt_succ ho) hnew) x hx k hk hready
    -- Two steps of the constructor create the task; then the scheduler switches to it.
    have ht1 : (t.setObj s.count x1).TasksWithin p := by
      refine tasksWithin_setObj ht0 ?_
      rintro k ⟨⟩
    have ht2 : ((t.setObj s.count x1).setObj s.count x2).TasksWithin priority :=
      tasksWithin_setObj (tasksWithin_mono ht1 hle) fun _ _ _ => Nat.le_refl priority
    have hclient : ((t.setObj s.count x1).setObj s.count x2).ClientWithin priority := by
      intro cl hcl' _
      cases hcl.symm.trans hcl'
      exact hle
    have hstep1 : step .client t = some (t.setObj s.count x1) :=
      client_advance hcl rfl hx0 ht0
    have hstep2 : step .client (t.setObj s.count x1) =
        some ((t.setObj s.count x1).setObj s.count x2) :=
      client_advance (s := t.setObj s.count x1) hcl rfl (Function.update_self _ _ _) ht1
    rcases exists_executed (x := x2) (Function.update_self _ _ _) rfl rfl (by decide) ht2 hclient
      with ⟨u, hu, hmem⟩
    have hreach : Reachable step t u :=
      (Reachable.single hstep1).trans ((Reachable.single hstep2).trans (.single hu))
    exact ⟨u, hreach, not_onLive hmem (by simp [x2, Sys.started])⟩
  · cases hstep

/-- A task that is not below the one that destroys its object can run after the destruction has
begun. -/
theorem destroy_unsound_task {p : Nat} (h : s.Inv) (hx : s.objs o = some x) (hk : x.task = some k)
    (hle : p ≤ x.priority) (hstep : step (.destroy o p) s = some t) :
    ∃ u, Reachable step t u ∧ ¬ u.OnLive := by
  simp only [step, Sys.destroy, Sys.call, hx] at hstep
  split at hstep
  · rename_i hidle
    rw [Option.some.injEq] at hstep
    let y : Obj := { x with phase := .destroying }
    have hy : t.objs o = some y := by
      rw [← hstep]
      exact Function.update_self _ _ _
    have htasks : t.TasksWithin p := by
      rw [← hstep]
      exact tasksWithin_setObj hidle.2.1 fun k' hk' =>
        hidle.2.1 o (h.lt_count hx) x hx k' hk'
    have hclient : t.ClientWithin x.priority := by
      rw [← hstep]
      intro cl hcl _
      cases hcl
      exact hle
    have hpc := (h.owned o x hx k hk).1
    cases hready : k.ready with
    | true =>
        rcases exists_executed hy hk hready hpc (tasksWithin_mono htasks hle) hclient
          with ⟨u, hu, hmem⟩
        exact ⟨u, .single hu, not_onLive hmem (by simp [y])⟩
    | false =>
        -- It wakes up first.
        let z : Obj := { y with task := some { k with ready := true } }
        have hwake : step (.wake o) t = some (t.setObj o z) := by
          simp only [step, Sys.wake, hy, y, hk, hready, Bool.false_eq_true, if_false, z]
        have htasks' : (t.setObj o z).TasksWithin x.priority :=
          tasksWithin_setObj (tasksWithin_mono htasks hle) fun _ _ _ => Nat.le_refl _
        rcases exists_executed (x := z) (Function.update_self _ _ _) rfl rfl hpc htasks' hclient
          with ⟨u, hu, hmem⟩
        exact ⟨u, (Reachable.single hwake).trans (.single hu), not_onLive hmem (by simp [z, y])⟩
  · cases hstep

/-- A pin callback that refers to an object being destroyed is called with the next edge. -/
theorem destroy_unsound_callback {p pin : Nat} (hpin : s.pinCallbacks pin = some o)
    (hstep : step (.destroy o p) s = some t) : ∃ u, Reachable step t u ∧ ¬ u.OnLive := by
  simp only [step, Sys.destroy, Sys.call] at hstep
  split at hstep
  · rename_i x hx
    split at hstep
    · rw [Option.some.injEq] at hstep
      let y : Obj := { x with phase := .destroying }
      have hedge : step (.edge pin) t = some { t with executed := (o, y.phase) :: t.executed } := by
        rw [← hstep]
        simp only [step, Sys.edge, Sys.setObj, hpin, Function.update_self, y]
      exact ⟨_, .single hedge, not_onLive (x := y) List.mem_cons_self (by simp [y])⟩
    · cases hstep
  · cases hstep

/-- A step that is not sound leads to a state from which code can be executed on an object that is
not live, without any further call. -/
theorem unsound_step (h : s.Inv) {l : Label} (hstep : step l s = some t) (hbad : ¬ Sound s l) :
    ∃ u, Reachable step t u ∧ ¬ u.OnLive := by
  cases l with
  | construct intPin priority p c =>
      cases c with
      | pdPASS => exact construct_unsound (Nat.le_of_not_lt hbad) hstep
      | errCouldNotAllocateRequiredMemory garbage => exact absurd trivial hbad
  | destroy o p =>
      by_cases hcallback : ∃ pin, s.pinCallbacks pin = some o
      · rcases hcallback with ⟨pin, hpin⟩
        exact destroy_unsound_callback hpin hstep
      · have htask : ¬ ∀ x ∈ s.objs o, x.task.isSome = true → x.priority < p :=
          fun hall => hbad ⟨hall, fun pin hpin => hcallback ⟨pin, hpin⟩⟩
        simp only [not_forall, Nat.not_lt] at htask
        rcases htask with ⟨x, hx, hsome, hle⟩
        rcases Option.isSome_iff_exists.1 hsome with ⟨k, hk⟩
        exact destroy_unsound_task h hx hk hle hstep
  | _ => exact absurd trivial hbad

end Unsound

/-! ## Runs -/

/-- Code runs on constructed, live objects only, in every run. -/
def AlwaysOnLive : Prop :=
  ∀ (ls : List Label) (t : Sys), Run step Free Sys.boot ls t → t.OnLive

/-- A task of priority 1 creates an object whose task has priority 2: this one calls `run` before
the constructor is done. -/
theorem not_alwaysOnLive : ¬ AlwaysOnLive := by
  intro h
  have hrun : Run step Free Sys.boot
      [.construct 5 2 1 .pdPASS, .client, .client, .task 0 false] _ :=
    .cons trivial rfl (.cons trivial rfl (.cons trivial rfl (.single trivial rfl)))
  have hlive := h _ _ hrun (0, .taskInterface) List.mem_cons_self
  cases hlive

/-- In a run all of whose steps are sound, code is executed on constructed, live objects only; and
from each state of such a run, a step that is not sound leads to a run in which it is not. -/
theorem onLive_of_sound (ls : List Label) (t : Sys) (h : Run step Sound Sys.boot ls t) :
    t.OnLive ∧ ∀ l u, step l t = some u → ¬ Sound t l → ∃ v, Reachable step u v ∧ ¬ v.OnLive := by
  have hinv : t.Inv := h.invariant (fun _ _ _ hI hok hstep => hI.step hok hstep) Sys.Inv.boot
  exact ⟨hinv.onLive, fun _ _ hstep hbad => unsound_step hinv hstep hbad⟩

theorem onLive_of_sound_edge :
    ∃ t, Run step Sound Sys.boot
        [.construct 5 1 2 .pdPASS, .client, .client, .client, .client, .task 0 true,
          .initialInTask 0 3, .client, .delayEnds, .client, .edge 5] t ∧
      t.OnLive ∧ ∀ l u, step l t = some u → ¬ Sound t l → ∃ v, Reachable step u v ∧ ¬ v.OnLive := by
  have hrun : Run step Sound Sys.boot
      [.construct 5 1 2 .pdPASS, .client, .client, .client, .client, .task 0 true,
        .initialInTask 0 3, .client, .delayEnds, .client, .edge 5] _ :=
    .cons (Nat.lt_succ_self 1) rfl (.cons trivial rfl (.cons trivial rfl (.cons trivial rfl
      (.cons trivial rfl (.cons trivial rfl (.cons trivial rfl (.cons trivial rfl
        (.cons trivial rfl (.cons trivial rfl (.single trivial rfl))))))))))
  exact ⟨_, hrun, onLive_of_sound _ _ hrun⟩

end Lifetime
end Mcp2515Task
end PicoCppSdk
