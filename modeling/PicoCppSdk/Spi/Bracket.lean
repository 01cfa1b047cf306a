import PicoCppSdk.Foundation.RecursiveMutex
import PicoCppSdk.Foundation.Transition

/-!
# Bracket — `SPI::lock`, `SPI::csSelect` and the tasks that bracket with them

`csSelect`/`csDeselect` take and give `_busMutex` recursively, `lock`/`unlock` take and give it
plainly.  Any number of tasks share one `SPI` object; each runs a well-bracketed program over the
two kinds of brackets, and every action of every task may be interleaved with the others.
-/

namespace PicoCppSdk
namespace Spi

/-! ## The four functions -/

/-- The actions on the shared state of an `SPI` object. -/
inductive Act where
  | take
  | give
  | takeRecursive
  | giveRecursive
  /-- `configASSERT(_csActive)` or `configASSERT(!_csActive)` -/
  | assertCsActive (b : Bool)
  | setCsActive (b : Bool)
  | gpioPut (cs : Bool)
  deriving DecidableEq, Repr

section Functions

variable (busMutex : Bool)

def lock : List Act :=
  if busMutex then [.take] else []

def unlock : List Act :=
  if busMutex then [.give] else []

def csSelect : List Act :=
  (if busMutex then [.takeRecursive] else []) ++
    [.assertCsActive false, .setCsActive true, .gpioPut false]

def csDeselect : List Act :=
  [.assertCsActive true, .setCsActive false, .gpioPut true] ++
    (if busMutex then [.giveRecursive] else [])

end Functions

/-! ## The shared state -/

structure Bus (ι : Type) where
  mutex : RecursiveMutex ι
  csActive : Bool
  cs : Bool
  /-- An assertion has failed. -/
  fired : Bool

namespace Bus

variable {ι κ : Type}

/-- As the constructor leaves it. -/
def idle : Bus ι where
  mutex := none
  csActive := false
  cs := true
  fired := false

/-- One action of task `i`; `none` while it blocks.  A failed assertion is recorded, and the task
goes on as it does in a build without assertions. -/
def perform [DecidableEq ι] (i : ι) (b : Bus ι) : Act → Option (Bus ι)
  | .take => (b.mutex.take i).map fun m => { b with mutex := m }
  | .give => some { b with mutex := b.mutex.give }
  | .takeRecursive => (b.mutex.takeRecursive i).map fun m => { b with mutex := m }
  | .giveRecursive => some { b with mutex := b.mutex.giveRecursive i }
  | .assertCsActive v => some { b with fired := b.fired || b.csActive != v }
  | .setCsActive v => some { b with csActive := v }
  | .gpioPut v => some { b with cs := v }

def rename (f : ι → κ) (b : Bus ι) : Bus κ where
  mutex := b.mutex.rename f
  csActive := b.csActive
  cs := b.cs
  fired := b.fired

@[simp] theorem rename_idle (f : ι → κ) : (idle : Bus ι).rename f = idle := rfl

/-- Actions do not depend on the names of the tasks. -/
theorem perform_rename [DecidableEq ι] [DecidableEq κ] {f : ι → κ} (hf : Function.Injective f)
    (i : ι) (b : Bus ι) (a : Act) :
    (b.rename f).perform (f i) a = (b.perform i a).map (rename f) := by
  cases a with
  | take =>
      simp only [perform, rename, RecursiveMutex.take_rename, Option.map_map]
      rfl
  | takeRecursive =>
      simp only [perform, rename, RecursiveMutex.takeRecursive_rename hf, Option.map_map]
      rfl
  | giveRecursive =>
      simp only [perform, rename, RecursiveMutex.giveRecursive_rename hf, Option.map_some]
  | _ => rfl

end Bus

/-! ## Well-bracketed programs -/

/-- A well-bracketed program; `csSelect` brackets occur only at index `true`, so that none is nested
in another one. -/
inductive Script : Bool → Type where
  | done {b : Bool} : Script b
  | cs (body : Script false) (next : Script true) : Script true
  | lock {b : Bool} (body next : Script b) : Script b

namespace Script

/-- The actions of a program on an object whose mutex exists. -/
def code : {b : Bool} → Script b → List Act
  | _, .done => []
  | _, .cs body next => csSelect true ++ body.code ++ csDeselect true ++ next.code
  | _, .lock body next => Spi.lock true ++ body.code ++ unlock true ++ next.code

end Script

/-! ## The tasks -/

/-- What a task has still to do, and how many brackets it has open. -/
structure Thread where
  todo : List Act
  depth : Nat

/-- A bracket is open from the moment its mutex call returns until it gives the mutex back. -/
def Act.nest : Act → Nat → Nat
  | .take, d => d + 1
  | .takeRecursive, d => d + 1
  | .give, d => d - 1
  | .giveRecursive, d => d - 1
  | _, d => d

/-- The mutex call of `lock` or `csSelect`. -/
def Act.Opens : Act → Prop
  | .take => True
  | .takeRecursive => True
  | _ => False

structure Sys (ι : Type) where
  bus : Bus ι
  thread : ι → Thread

namespace Sys

variable {ι : Type} [DecidableEq ι]

/-- The next action of task `i`. -/
def step (i : ι) (s : Sys ι) : Option (Sys ι) :=
  match (s.thread i).todo with
  | [] => none
  | a :: as =>
      (s.bus.perform i a).map fun b =>
        { bus := b, thread := Function.update s.thread i ⟨as, a.nest (s.thread i).depth⟩ }

def start (script : ι → Script true) : Sys ι where
  bus := .idle
  thread i := ⟨(script i).code, 0⟩

/-! ## The property -/

/-- Task `i` is about to open a bracket. -/
def Opening (s : Sys ι) (i : ι) : Prop :=
  ∃ a as, (s.thread i).todo = a :: as ∧ a.Opens

/-- Task `i` waits for the mutex in `lock` or `csSelect`. -/
def Waits (s : Sys ι) (i : ι) : Prop :=
  s.Opening i ∧ step i s = none

def Holds (s : Sys ι) (i : ι) : Prop :=
  ∃ count, s.bus.mutex = some (i, count)

def SelfWaits (s : Sys ι) (i : ι) : Prop :=
  s.Holds i ∧ s.Waits i

/-- While a task has a bracket open, no other task gets past `lock` or `csSelect`; and no task waits
for the mutex it holds. -/
structure Exclusive (s : Sys ι) : Prop where
  keptOut : ∀ i j t, i ≠ j → 0 < (s.thread i).depth → s.Opening j → step j s ≠ some t
  noSelfWait : ∀ i, ¬ s.SelfWaits i

end Sys
end Spi
end PicoCppSdk
