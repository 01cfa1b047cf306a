import PicoCppSdk.Foundation.Reduction
import PicoCppSdk.Mcp2515.Decoder
import PicoCppSdk.Mcp2515Task.Program

/-!
# OnWire — tasks on one bus, byte by byte

The code of tasks with every transaction of the driver in full: `csSelect` takes the mutex and
drives chip select, the bytes go out and come back, `csDeselect` gives the mutex back.  Between any
two of these actions another task may act, or the controller may change its registers by itself.

A transaction takes effect with its last byte, and other tasks cannot tell it from a single step.
-/

namespace PicoCppSdk
namespace Mcp2515Task

open Atomic Mcp2515 Transition

/-! ## Code -/

/-- An action on the `SPI` object, a byte sent and one received, or another action of a task. -/
inductive WireAct where
  | spi (a : Spi.Act)
  | byte (b : Byte)
  | task (a : Act)

abbrev WireAct.Ans : WireAct → Type
  | .spi _ => Unit
  | .byte _ => Byte
  | .task a => a.Ans

abbrev WireTask (α : Type) := Prog WireAct WireAct.Ans α

namespace WireTask

/-- The actions of `csSelect` or `csDeselect`. -/
def acts : List Spi.Act → WireTask Unit
  | [] => .ret ()
  | a :: as => .act (.spi a) fun _ => acts as

/-- The bytes of the transfers of a bracket; the result is the last answer. -/
def send : List Byte → Byte → WireTask Byte
  | [], x => .ret x
  | b :: bs, _ => .act (.byte b) fun x => send bs x

/-- From the transfers of a transaction on. -/
def transfers (a : BusAct) (bs : List Byte) (x : Byte) : WireTask a.Ans := do
  let x ← send bs x
  acts (Spi.csDeselect true)
  .ret (Wire.answer a x)

/-- A transaction on the wire; the lock is the mutex alone. -/
def transaction : (a : BusAct) → WireTask a.Ans
  | .lock => acts (Spi.lock true)
  | .unlock => acts (Spi.unlock true)
  | a => do
      acts (Spi.csSelect true)
      transfers a (Wire.bytes a) 0#8

end WireTask

/-- An action of a task on the wire. -/
def Act.onWire : (a : Act) → WireTask a.Ans
  | .bus a => WireTask.transaction a
  | a => .act (.task a) .ret

/-- The action is not the lock. -/
def Act.Primitive : Act → Prop
  | .bus a => a.Primitive
  | _ => True

/-! ## The state -/

/-- A state in which the controller has its registers and its mode; `put` may add what follows from
a change of them. -/
structure Node (C : Type) where
  get : C → Regs × Mode
  put : C → Regs × Mode → C
  put_get : ∀ c, put c (get c) = c
  /-- The actions of the tasks other than transactions. -/
  perform : (a : Act) → C → Option (a.Ans × C)

structure WireState (ι : Type) (C : Type) where
  bus : Spi.Bus ι
  core : C
  phase : Phase

section Machines

variable {ι : Type} [DecidableEq ι] {C : Type} (N : Node C) (por : Reset) (z : Byte)

namespace Node

/-- The controller as the bus finds it. -/
def chip (c : C) (phase : Phase) : Chip where
  regs := (N.get c).1
  mode := (N.get c).2
  phase := phase

/-- The state with the controller as the bus leaves it. -/
def setChip (c : C) (chip : Chip) : C :=
  N.put c (chip.regs, chip.mode)

/-- An action of a task, a transaction being a single step. -/
def act : (a : Act) → C → Option (a.Ans × C)
  | .bus a, c =>
      let q := (Chip.slave por z).act a (N.chip c .ignore)
      some (q.1, N.setChip c q.2)
  | a, c => N.perform a c

/-- The controller sees the edges of chip select. -/
def sees : Spi.Act → Phase → Phase
  | .gpioPut false, _ => .instruction
  | .gpioPut true, _ => .ignore
  | _, p => p

/-- An action of task `i` on the wire. -/
def wireAct (i : ι) : (a : WireAct) → WireState ι C → Option (a.Ans × WireState ι C)
  | .spi a, s => (s.bus.perform i a).map fun b => ((), { s with bus := b, phase := sees a s.phase })
  | .byte b, s =>
      let q := (N.chip s.core s.phase).respond por z b
      some (q.1, { s with core := N.setChip s.core q.2, phase := q.2.phase })
  | .task a, s => (N.perform a s.core).map fun q => (q.1, { s with core := q.2 })

end Node

/-- The tasks, the calls they can make, and what happens by itself. -/
structure Tasks (C : Type) (α : ι → Type) (κ : Type) (ε : Type) where
  caller : κ → ι
  entry : (c : κ) → α (caller c) → Task (α (caller c))
  event : ε → C → Option C

variable {α : ι → Type} {κ : Type} {ε : Type} (T : Tasks C α κ ε)

/-- The tasks with their transactions as single steps. -/
def Tasks.machine : Machine Act Act.Ans C α κ ε where
  perform _ := N.act por z
  caller := T.caller
  entry := T.entry
  event := T.event

end Machines

/-! ## Inside a transaction -/

/-- What is left of `csSelect` once task `i` has the mutex. -/
inductive Opens {ι : Type} (i : ι) : List Spi.Act → Spi.Bus ι → Prop where
  | checking : Opens i [.assertCsActive false, .setCsActive true, .gpioPut false]
      ⟨some (i, 1#32), false, true, false⟩
  | marking : Opens i [.setCsActive true, .gpioPut false] ⟨some (i, 1#32), false, true, false⟩
  | selecting : Opens i [.gpioPut false] ⟨some (i, 1#32), true, true, false⟩

/-- What is left of `csDeselect`. -/
inductive Closes {ι : Type} (i : ι) : List Spi.Act → Spi.Bus ι → Prop where
  | checking : Closes i (Spi.csDeselect true) ⟨some (i, 1#32), true, false, false⟩
  | unmarking : Closes i [.setCsActive false, .gpioPut true, .giveRecursive]
      ⟨some (i, 1#32), true, false, false⟩
  | deselecting : Closes i [.gpioPut true, .giveRecursive] ⟨some (i, 1#32), false, false, false⟩
  | giving : Closes i [.giveRecursive] ⟨some (i, 1#32), false, true, false⟩

section Inside

variable {ι : Type} {C : Type}

/-- Task `i` has the mutex, and has not sent its last byte. -/
inductive Opened (i : ι) (s : WireState ι C) : (a : Act) → WireTask a.Ans → Prop where
  | opening {a : BusAct} {as : List Spi.Act} :
      a.Primitive → Opens i as s.bus →
      Opened i s (.bus a) (WireTask.acts as >>= fun _ =>
        WireTask.transfers a (Wire.bytes a) 0#8)
  | sending {a : BusAct} {b : Byte} {rest : List Byte} (x : Byte) :
      s.bus = ⟨some (i, 1#32), true, false, false⟩ → Sends a (b :: rest) s.phase →
      Opened i s (.bus a) (WireTask.transfers a (b :: rest) x)

/-- Task `i` has sent its last byte, and has the mutex. -/
inductive Sent (i : ι) (s : WireState ι C) : (a : Act) → a.Ans → WireTask a.Ans → Prop where
  | closing {a : BusAct} {as : List Spi.Act} (r : a.Ans) :
      Closes i as s.bus → Sent i s (.bus a) r (WireTask.acts as >>= fun _ => .ret r)

end Inside

section Held

variable {ι C : Type} {i : ι} {s : WireState ι C} {a : Act} {r : a.Ans} {q : WireTask a.Ans}
  {as : List Spi.Act} {bus : Spi.Bus ι}

theorem Opens.held (h : Opens i as bus) : bus.mutex = some (i, 1#32) ∧ bus.fired = false := by
  cases h <;> exact ⟨rfl, rfl⟩

theorem Closes.held (h : Closes i as bus) : bus.mutex = some (i, 1#32) ∧ bus.fired = false := by
  cases h <;> exact ⟨rfl, rfl⟩

theorem Opened.held (h : Opened i s a q) :
    s.bus.mutex = some (i, 1#32) ∧ s.bus.fired = false := by
  cases h with
  | opening _ hopens => exact hopens.held
  | sending x hbus _ =>
      rw [hbus]
      exact ⟨rfl, rfl⟩

theorem Sent.held (h : Sent i s a r q) : s.bus.mutex = some (i, 1#32) ∧ s.bus.fired = false := by
  cases h with
  | closing _ hcloses => exact hcloses.held

theorem Opened.exists_act (h : Opened i s a q) : ∃ b k, q = .act b k := by
  rcases s with ⟨bus, core, phase⟩
  cases h with
  | opening _ hopens => cases hopens <;> exact ⟨_, _, rfl⟩
  | sending x _ _ => exact ⟨_, _, rfl⟩

theorem Sent.exists_act (h : Sent i s a r q) : ∃ b k, q = .act b k := by
  rcases s with ⟨bus, core, phase⟩
  cases h with
  | closing _ hcloses => cases hcloses <;> exact ⟨_, _, rfl⟩

/-- It is the bus and the decoder that a transaction relies on. -/
theorem Opened.of_core (h : Opened i s a q) (c : C) : Opened i { s with core := c } a q := by
  cases h with
  | opening hprim hopens => exact .opening hprim hopens
  | sending x hbus hsends => exact .sending x hbus hsends

theorem Sent.of_core (h : Sent i s a r q) (c : C) : Sent i { s with core := c } a r q := by
  cases h with
  | closing r hcloses => exact .closing r hcloses

end Held

/-! ## The reduction -/

section Reduction

variable {ι : Type} [DecidableEq ι] {C κ ε : Type} {α : ι → Type} (N : Node C) (por : Reset)
  (z : Byte) (T : Tasks C α κ ε)

/-- The tasks on the wire, and what is seen of them. -/
def onWire : Reduction (T.machine N por z) WireAct WireAct.Ans (WireState ι C) where
  expand := Act.onWire
  perform := N.wireAct por z
  event e s := (T.event e s.core).map fun c => { s with core := c }
  view := WireState.core
  Allowed := Act.Primitive
  Unlocked s := s.bus = .idle
  Before := Opened
  After := Sent

variable {N por z T}

section Laws

variable {i : ι} {s t : WireState ι C} {a : Act} {r : a.Ans} {q q' : WireTask a.Ans}

theorem transaction_eq {a : BusAct} (ha : a.Primitive) :
    WireTask.transaction a = (WireTask.acts (Spi.csSelect true) >>= fun _ =>
      WireTask.transfers a (Wire.bytes a) 0#8) := by
  cases a with
  | lock => exact ha.elim
  | unlock => exact ha.elim
  | _ => rfl

/-- An action that is no transaction is the same on the wire. -/
theorem Act.onWire_of_not_bus (hbus : ∀ b, a ≠ .bus b) : a.onWire = .act (.task a) .ret := by
  cases a with
  | bus b => exact absurd rfl (hbus b)
  | _ => rfl

theorem Node.act_of_not_bus (hbus : ∀ b, a ≠ .bus b) (c : C) : N.act por z a c = N.perform a c := by
  cases a with
  | bus b => exact absurd rfl (hbus b)
  | _ => rfl

theorem mutex_of_holds {j : ι} (h : (onWire N por z T).Holds j s) :
    s.bus.mutex = some (j, 1#32) := by
  rcases h with ⟨a, q, hopened⟩ | ⟨a, r, q, hsent⟩
  · exact hopened.held.1
  · exact hsent.held.1

/-- A byte that changes nothing but the decoder. -/
theorem Node.setChip_of_unselected {c : C} {phase : Phase} {chip : Chip}
    (h : chip.unselected = (N.chip c phase).unselected) : N.setChip c chip = c := by
  have hregs : chip.regs = (N.get c).1 := congrArg Chip.regs h
  have hmode : chip.mode = (N.get c).2 := congrArg Chip.mode h
  rw [Node.setChip, hregs, hmode]
  exact N.put_get c

/-- The last byte of a transaction, and the transaction. -/
theorem Node.act_of_last {c : C} {phase : Phase} {a : BusAct} {b : Byte}
    (h : Sends a [b] (N.chip c phase).phase) :
    some (Wire.answer a ((N.chip c phase).respond por z b).1,
        N.setChip c ((N.chip c phase).respond por z b).2) =
      N.act por z (.bus a) c := by
  have hlast : (Wire.answer a ((N.chip c phase).respond por z b).1,
      ((N.chip c phase).respond por z b).2.unselected) =
        (Chip.slave por z).act a (N.chip c .ignore) :=
    h.last
  rw [Node.act, ← hlast]
  rfl

theorem wire_begins (ha : a.Primitive)
    (hlock : s.bus = .idle ∨ ∃ j, j ≠ i ∧ (onWire N por z T).Holds j s)
    (hl : a.onWire.step (N.wireAct por z i) s = some (q, t)) :
    (∃ r, q = .ret r ∧ N.act por z a s.core = some (r, t.core) ∧
      (s.bus = .idle → t.bus = .idle) ∧ ∀ j, j ≠ i → (onWire N por z T).Stays j s t) ∨
    (s.bus = .idle ∧ Opened i t a q ∧ t.core = s.core) := by
  by_cases hbus : ∃ b, a = .bus b
  · right
    rcases hbus with ⟨a, rfl⟩
    rw [Act.onWire, transaction_eq ha] at hl
    rcases hlock with hidle | ⟨j, hj, hholds⟩
    · rcases s with ⟨bus, core, phase⟩
      subst hidle
      cases hl
      exact ⟨rfl, .opening ha .checking, rfl⟩
    · -- The mutex has a holder, and this task waits.
      simp [Spi.csSelect, WireTask.acts, Prog.step, Node.wireAct, Spi.Bus.perform,
        mutex_of_holds hholds, RecursiveMutex.takeRecursive, hj] at hl
  · left
    have hnot : ∀ b, a ≠ .bus b := fun b hb => hbus ⟨b, hb⟩
    rw [Act.onWire_of_not_bus hnot] at hl
    rcases Option.map_eq_some_iff.1 hl with ⟨⟨r, s'⟩, hwire, heq⟩
    rcases Option.map_eq_some_iff.1 hwire with ⟨⟨r', c⟩, hperform, heq'⟩
    cases heq'
    cases heq
    refine ⟨_, rfl, (Node.act_of_not_bus hnot s.core).trans hperform, id, fun j _ => ?_⟩
    exact ⟨fun _ _ h => h.of_core c, fun _ _ _ h => h.of_core c⟩

theorem wire_goesOn (h : Opened i s a q) (hl : q.step (N.wireAct por z i) s = some (q', t)) :
    (Opened i t a q' ∧ t.core = s.core) ∨
    ∃ r, N.act por z a s.core = some (r, t.core) ∧ Sent i t a r q' := by
  rcases s with ⟨bus, core, phase⟩
  cases h with
  | @opening a as hprim hopens =>
      left
      cases hopens with
      | checking =>
          cases hl
          exact ⟨.opening hprim .marking, rfl⟩
      | marking =>
          cases hl
          exact ⟨.opening hprim .selecting, rfl⟩
      | selecting =>
          cases hl
          rcases Wire.bytes_eq_cons hprim with ⟨b, rest, hbytes⟩
          have hsends := Sends.start hprim
          have hopened : Opened i ⟨⟨some (i, 1#32), true, false, false⟩, core, .instruction⟩
              (.bus a) (WireTask.transfers a (Wire.bytes a) 0#8) := by
            rw [hbytes] at hsends ⊢
            exact .sending 0#8 rfl hsends
          exact ⟨hopened, rfl⟩
  | @sending a b rest x hbus hsends =>
      cases hl
      have hchip : Sends a (b :: rest) (N.chip core phase).phase := hsends
      rcases rest with _ | ⟨b', rest⟩
      · right
        refine ⟨Wire.answer a ((N.chip core phase).respond por z b).1, ?_,
          .closing _ (hbus ▸ .checking)⟩
        exact (Node.act_of_last hchip).symm
      · left
        have hnext : Sends a (b' :: rest) ((N.chip core phase).respond por z b).2.phase ∧
            ((N.chip core phase).respond por z b).2.unselected =
              (N.chip core phase).unselected :=
          hchip.next (List.cons_ne_nil b' rest)
        exact ⟨.sending ((N.chip core phase).respond por z b).1 hbus hnext.1,
          Node.setChip_of_unselected hnext.2⟩

theorem wire_ends (h : Sent i s a r q) (hl : q.step (N.wireAct por z i) s = some (q', t)) :
    t.core = s.core ∧ (Sent i t a r q' ∨ (t.bus = .idle ∧ q' = .ret r)) := by
  rcases s with ⟨bus, core, phase⟩
  cases h with
  | closing r hcloses =>
      cases hcloses with
      | checking =>
          cases hl
          exact ⟨rfl, Or.inl (.closing r .unmarking)⟩
      | unmarking =>
          cases hl
          exact ⟨rfl, Or.inl (.closing r .deselecting)⟩
      | deselecting =>
          cases hl
          exact ⟨rfl, Or.inl (.closing r .giving)⟩
      | giving =>
          simp only [WireTask.acts, Prog.act_bind, Prog.step, Node.wireAct, Spi.Bus.perform,
            RecursiveMutex.giveRecursive, Option.map_some] at hl
          cases hl
          exact ⟨rfl, Or.inr ⟨rfl, rfl⟩⟩

/-! ### A task that is left alone -/

/-- The last action of a bracket. -/
theorem steps_giving {a : BusAct} (r : a.Ans) (core : C) (phase : Phase) :
    Prog.steps (N.wireAct por z i) 1 (WireTask.acts [.giveRecursive] >>= fun _ => .ret r)
        ⟨⟨some (i, 1#32), false, true, false⟩, core, phase⟩ =
      some (.ret r, ⟨.idle, core, phase⟩) := by
  simp only [Prog.steps, WireTask.acts, Prog.act_bind, Prog.step, Node.wireAct, Spi.Bus.perform,
    RecursiveMutex.giveRecursive, Option.map_some, Option.bind_some]
  rfl

theorem steps_sending {a : BusAct} {r : a.Ans} {core c : C}
    (hact : N.act por z (.bus a) core = some (r, c)) (rest : List Byte) :
    ∀ (b x : Byte) (phase : Phase), Sends a (b :: rest) phase →
      ∃ n, Prog.steps (N.wireAct por z i) n (WireTask.transfers a (b :: rest) x)
        ⟨⟨some (i, 1#32), true, false, false⟩, core, phase⟩ =
          some (.ret r, ⟨.idle, c, .ignore⟩) := by
  induction rest with
  | nil =>
      intro b x phase hsends
      have hchip : Sends a [b] (N.chip core phase).phase := hsends
      have hlast := (Node.act_of_last hchip).trans hact
      have hanswer : Wire.answer a ((N.chip core phase).respond por z b).1 = r :=
        congrArg Prod.fst (Option.some.inj hlast)
      have hcore : N.setChip core ((N.chip core phase).respond por z b).2 = c :=
        congrArg Prod.snd (Option.some.inj hlast)
      have hgives : Prog.steps (N.wireAct por z i) 1
          (WireTask.acts [.giveRecursive] >>= fun _ =>
            .ret (Wire.answer a ((N.chip core phase).respond por z b).1))
          ⟨⟨some (i, 1#32), false, true, false⟩,
            N.setChip core ((N.chip core phase).respond por z b).2, .ignore⟩ =
          some (.ret r, ⟨.idle, c, .ignore⟩) := by
        rw [hanswer, hcore]
        exact steps_giving r c .ignore
      exact ⟨5, hgives⟩
  | cons b' rest ih =>
      intro b x phase hsends
      have hchip : Sends a (b :: b' :: rest) (N.chip core phase).phase := hsends
      have hnext : Sends a (b' :: rest) ((N.chip core phase).respond por z b).2.phase ∧
          ((N.chip core phase).respond por z b).2.unselected = (N.chip core phase).unselected :=
        hchip.next (List.cons_ne_nil b' rest)
      have hcore := Node.setChip_of_unselected hnext.2
      have hstep : (WireTask.transfers a (b :: b' :: rest) x).step (N.wireAct por z i)
          ⟨⟨some (i, 1#32), true, false, false⟩, core, phase⟩ =
            some (WireTask.transfers a (b' :: rest) ((N.chip core phase).respond por z b).1,
              ⟨⟨some (i, 1#32), true, false, false⟩,
                N.setChip core ((N.chip core phase).respond por z b).2,
                ((N.chip core phase).respond por z b).2.phase⟩) :=
        rfl
      rcases ih b' ((N.chip core phase).respond por z b).1 _ hnext.1 with ⟨n, hn⟩
      refine ⟨n + 1, ?_⟩
      rw [Prog.steps, hstep, hcore]
      exact hn

theorem wire_alone (ha : a.Primitive) (hidle : s.bus = .idle) {c : C}
    (hact : N.act por z a s.core = some (r, c)) :
    ∃ n t, Prog.steps (N.wireAct por z i) n a.onWire s = some (.ret r, t) ∧ t.bus = .idle ∧
      t.core = c := by
  rcases s with ⟨bus, core, phase⟩
  subst hidle
  by_cases hbus : ∃ b, a = .bus b
  · rcases hbus with ⟨a, rfl⟩
    rcases Wire.bytes_eq_cons ha with ⟨b, rest, hbytes⟩
    have hsends := Sends.start ha
    rw [hbytes] at hsends
    rcases steps_sending (i := i) hact rest b 0#8 .instruction hsends with ⟨n, hn⟩
    refine ⟨n + 4, ⟨.idle, c, .ignore⟩, ?_, rfl, rfl⟩
    rw [Act.onWire, transaction_eq ha, hbytes]
    exact hn
  · have hnot : ∀ b, a ≠ .bus b := fun b hb => hbus ⟨b, hb⟩
    rw [Node.act_of_not_bus hnot] at hact
    refine ⟨1, ⟨.idle, c, phase⟩, ?_, rfl, rfl⟩
    simp only [Act.onWire_of_not_bus hnot, Prog.steps, Prog.step, Node.wireAct, hact,
      Option.map_some, Option.bind_some]

end Laws

theorem onWire_lawful : (onWire N por z T).Lawful where
  expand_act a ha := by
    by_cases hbus : ∃ b, a = .bus b
    · rcases hbus with ⟨a, rfl⟩
      exact ⟨.spi .takeRecursive, fun _ => _, transaction_eq ha⟩
    · exact ⟨.task a, .ret, Act.onWire_of_not_bus fun b hb => hbus ⟨b, hb⟩⟩
  before_act i s a q h := by
    refine ⟨fun hidle => ?_, h.exists_act⟩
    have hheld := h.held.1
    rw [show s.bus = .idle from hidle] at hheld
    cases hheld
  after_act i s a r q h := by
    refine ⟨fun hidle => ?_, h.exists_act⟩
    have hheld := h.held.1
    rw [show s.bus = .idle from hidle] at hheld
    cases hheld
  begins i s a q t ha hlock hl := wire_begins ha hlock hl
  goesOn i s a q q' t h hl := wire_goesOn h hl
  ends i s a r q q' t h hl := wire_ends h hl
  event e s t h := by
    rcases Option.map_eq_some_iff.1 h with ⟨c, hc, rfl⟩
    exact ⟨hc, id, fun j => ⟨fun _ _ h => h.of_core c, fun _ _ _ h => h.of_core c⟩⟩
  alone i s a r c ha hidle hact := wire_alone ha hidle hact
  event_exists e s c hc := ⟨{ s with core := c }, congrArg (Option.map _) hc⟩

/-- No assertion of `csSelect` or `csDeselect` fails. -/
theorem fired_of_matches {holder : Option ι} {s : Threads WireAct WireAct.Ans (WireState ι C) α}
    {u : Threads Act Act.Ans C α} (h : (onWire N por z T).Matches holder s u) :
    s.shared.bus.fired = false := by
  cases holder with
  | none =>
      have hidle : s.shared.bus = .idle := h.unlocked rfl
      rw [hidle]
      rfl
  | some i =>
      rcases (h.inside i rfl).holds with ⟨a, q, hopened⟩ | ⟨a, r, q, hsent⟩
      · exact hopened.held.2
      · exact hsent.held.2

/-! ## Runs -/

/-- Tasks that use the bus without the lock: every run on the wire is for its calls and events, for
the state of the controller and of the kernel, and in what the calls return, a run in which each
transaction is a single step, and no assertion fails; and every such run is there on the wire. -/
theorem transactions_atomic (N : Node C) (por : Reset) (z : Byte) (T : Tasks C α κ ε)
    (hentry : ∀ c x, (T.entry c x).Every Act.Primitive) (p : (i : ι) → Task (α i))
    (hp : ∀ i, (p i).Every Act.Primitive) (c : C) (phase : Phase) :
    (∀ ls t, Run (onWire N por z T).machine.step Free
        ⟨⟨.idle, c, phase⟩, fun i => (p i).expand Act.onWire⟩ ls t →
      t.shared.bus.fired = false ∧
      ∃ ms u, Run (T.machine N por z).step Free ⟨c, p⟩ ms u ∧
        ms.filterMap Machine.Label.shown = ls.filterMap Machine.Label.shown ∧
        u.shared = t.shared.core ∧ ∀ i x, t.thread i = .ret x → u.thread i = .ret x) ∧
    (∀ ms u, Run (T.machine N por z).step Free ⟨c, p⟩ ms u →
      ∃ ls t, Run (onWire N por z T).machine.step Free
          ⟨⟨.idle, c, phase⟩, fun i => (p i).expand Act.onWire⟩ ls t ∧
        ls.filterMap Machine.Label.shown = ms.filterMap Machine.Label.shown ∧
        t.shared.bus = .idle ∧ t.shared.core = u.shared ∧
        ∀ i, t.thread i = (u.thread i).expand Act.onWire) := by
  have hlawful : (onWire N por z T).Lawful := onWire_lawful
  have hstart : (onWire N por z T).Matches none
      ⟨⟨.idle, c, phase⟩, fun i => (p i).expand Act.onWire⟩ ⟨c, p⟩ :=
    .start hp rfl
  constructor
  · intro ls t hrun
    rcases hlawful.run hentry hstart hrun with ⟨u, ms, ⟨holder, hmatches⟩, hrun', hshown⟩
    exact ⟨fired_of_matches hmatches, ms, u, hrun', hshown, hmatches.view,
      fun i x hx => hlawful.ret_of_matches hmatches hx⟩
  · intro ms u hrun
    rcases hlawful.run_exists hentry hstart hrun with ⟨t, ls, hmatches, hrun', hshown⟩
    exact ⟨ls, t, hrun', hshown, hmatches.unlocked rfl, hmatches.view.symm,
      fun i => hmatches.outside i fun h => Option.some_ne_none i h.symm⟩

end Reduction

/-- The controller, and nothing else. -/
def Node.bare : Node (Regs × Mode) where
  get := id
  put _ x := x
  put_get _ := rfl
  perform _ _ := none

/-- One task clears a flag and then finds it set: another one has written in between. -/
theorem transactions_atomic_two :
    let T : Tasks (Regs × Mode) (fun _ : Bool => Byte) Empty Empty :=
      ⟨Empty.elim, fun c => c.elim, fun e => e.elim⟩
    let p : Bool → Task Byte := fun i =>
      liftBus (if i then do
        bitModify CANINTF RX0IF 0#8
        readByte CANINTF
      else do
        writeByte CANINTF RX0IF
        readByte CANINTF)
    ∃ ls t, Run (onWire .bare resetValues 0#8 T).machine.step Free
        ⟨⟨.idle, (fun _ => 0xFF#8, .normal), .ignore⟩, fun i => (p i).expand Act.onWire⟩ ls t ∧
      t.thread true = .ret RX0IF := by
  intro T p
  have hp : ∀ i, (p i).Every Act.Primitive := by
    rintro (_ | _) <;> exact ⟨trivial, fun _ => ⟨trivial, fun _ => trivial⟩⟩
  have hall := transactions_atomic .bare resetValues 0#8 T (fun c => c.elim) p hp
    (fun _ => 0xFF#8, .normal) .ignore
  rcases hall.2 [.act true, .act false, .act true] _
    (.cons trivial rfl (.cons trivial rfl (.cons trivial rfl (.nil _)))) with
    ⟨ls, t, hrun, _, _, _, hthread⟩
  refine ⟨ls, t, hrun, ?_⟩
  rw [hthread true]
  rfl

end Mcp2515Task
end PicoCppSdk
