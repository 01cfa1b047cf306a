import PicoCppSdk.Mcp2515.Programming
import PicoCppSdk.Mcp2515Task.Move
import PicoCppSdk.Mcp2515Task.OnWire

/-!
# Source — the programs of the parties on the bus, and `Sys`

`Sys` has the controller as a register file, a transaction as one step and each party at a control
point.  Here the parties run the programs of the source, with every byte on the wire, against the
controller with its instruction decoder and its mode.  From outside the two are the same: each run
of the one shows the calls, events and results of a run of the other.
-/

namespace PicoCppSdk
namespace Mcp2515Task

open Atomic Mcp2515 Transition

/-! ## The parties -/

inductive Party where
  | canService
  | reader
  | sender
  deriving DecidableEq

abbrev Party.Result : Party → Type
  | .canService => Loop
  | .reader => Received × Nat
  | .sender => Unit

/-- `run` goes on with its next turn, or a task of the user makes a call.  A call that sends has a
CAN payload: more bytes would reach registers behind TXB0. -/
inductive Call where
  | again
  | receive (buf : Nat → Byte)
  | submit (c : SendCall) (hlen : c.len ≤ 8#8)

namespace Call

def party : Call → Party
  | .again => .canService
  | .receive _ => .reader
  | .submit _ _ => .sender

def code : (c : Call) → c.party.Result → Task c.party.Result
  | .again, l => run l
  | .receive buf, _ => rxReadInTask buf
  | .submit c _, _ => txBuffer0SendInTask c

end Call

/-- What happens by itself. -/
inductive Happening where
  | irqHandler (now : Nat)
  | arrive (img : RxImage)
  | complete
  | raise (flags eflg : Byte)
  /-- The controller changes its mode. -/
  | mode (m : Mode)

namespace Happening

def label : Happening → Option Label
  | .irqHandler now => some (.irqHandler now)
  | .arrive img => some (.arrive img)
  | .complete => some .complete
  | .raise flags eflg => some (.raise flags eflg)
  | .mode _ => none

def modeAfter : Happening → Mode → Mode
  | .mode m, _ => m
  | _, m => m

end Happening

/-- The state without the parties and the history. -/
def Sys.still (s : Sys) : Sys :=
  { s with can := .await, reader := none, sender := none, trace := [] }

/-- A step by itself; the mode is no part of `Sys`. -/
def Happening.apply (e : Happening) (c : Sys × Mode) : Option (Sys × Mode) :=
  match e.label with
  | some l => (Sys.step l c.1).map fun s => (s.still, e.modeAfter c.2)
  | none => some (c.1, e.modeAfter c.2)

theorem Sys.latch_self (s : Sys) : s.latch s = s := by
  simp [Sys.latch]

/-- The controller and the kernel objects, a change of the registers latching its edge. -/
def node : Node (Sys × Mode) where
  get c := (c.1.regs, c.2)
  put c x := (c.1.latch { c.1 with regs := x.1 }, x.2)
  put_get c := Prod.ext c.1.latch_self rfl
  perform a c := (Sys.perform a c.1).map fun q => (q.1, (c.1.latch q.2, c.2))

def tasks : Tasks (Sys × Mode) Party.Result Call Happening where
  caller := Call.party
  entry := Call.code
  event := Happening.apply

/-! ## What is seen -/

/-- What is seen of a step of `Sys`: calls and what happens by itself. -/
def Label.seen : Label → Option Label
  | .canService => none
  | .reader => none
  | .sender => none
  | l => some l

def Call.label : Call → Option Label
  | .again => none
  | .receive buf => some (.receive buf)
  | .submit c _ => some (.submit c)

/-- What is seen of a step of the programs. -/
def seen (l : Machine.Label Party Call Happening) : Option Label :=
  l.shown.bind (Sum.elim Call.label Happening.label)

theorem filterMap_seen (ls : List (Machine.Label Party Call Happening)) :
    ls.filterMap seen =
      (ls.filterMap Machine.Label.shown).filterMap (Sum.elim Call.label Happening.label) := by
  rw [List.filterMap_filterMap]
  rfl

/-! ## Actions -/

/-- A transaction that stores into registers that are open in every mode, or another action. -/
def Act.Plain : Act → Prop
  | .bus a => a.Primitive ∧ Chip.Open a
  | _ => True

theorem Act.Plain.primitive {a : Act} (h : a.Plain) : a.Primitive := by
  cases a with
  | bus a => exact h.1
  | _ => trivial

section Act

variable {s : Sys} {m : Mode}

theorem take_still (k : Sem) (s : Sys) : s.still.take k = (s.take k).map Sys.still := by
  cases k with
  | intSemaphore =>
      show (if s.intSem = true then _ else _) = Option.map _ (if s.intSem = true then _ else _)
      split <;> rfl
  | txSemaphore =>
      show (if s.txSem = true then _ else _) = Option.map _ (if s.txSem = true then _ else _)
      split <;> rfl
  | rxSemaphore =>
      show (if 0 < s.rxSem then _ else _) = Option.map _ (if 0 < s.rxSem then _ else _)
      split <;> rfl

theorem perform_still (a : Act) (s : Sys) :
    Sys.perform a s.still = (Sys.perform a s).map fun q => (q.1, q.2.still) := by
  cases a with
  | take k =>
      simp only [Sys.perform, take_still, Option.map_map]
      rfl
  | load v => cases v <;> rfl
  | store v x => cases v <;> rfl
  | give k => cases k <;> rfl
  | _ => rfl

/-- On the controller an action does what it does on `Sys`. -/
theorem act_still (por : Reset) (z : Byte) (s : Sys) (m : Mode) {a : Act} (h : a.Plain) :
    (node.act por z a (s.still, m)).map (fun q => (q.1, q.2.1)) =
      (Sys.perform a s).map fun q => (q.1, (s.latch q.2).still) := by
  by_cases hbus : ∃ b, a = .bus b
  · rcases hbus with ⟨a, rfl⟩
    have hregs : (((Chip.slave por z).act a ⟨s.regs, m, .ignore⟩).1,
        ((Chip.slave por z).act a ⟨s.regs, m, .ignore⟩).2.regs) = a.onRegs s.regs :=
      Chip.act_regs h.2
    simp only [Sys.perform, Option.map_some, ← hregs]
    rfl
  · rw [Node.act_of_not_bus fun b hb => hbus ⟨b, hb⟩]
    simp only [node, perform_still, Option.map_map]
    rfl

theorem act_still_cases {por : Reset} {z : Byte} {a : Act} (h : a.Plain) {r : a.Ans}
    {c : Sys × Mode} (hact : node.act por z a (s.still, m) = some (r, c)) :
    ∃ t, Sys.perform a s = some (r, t) ∧ c.1 = (s.latch t).still := by
  have hmap := act_still por z s m h
  rw [hact] at hmap
  rcases Option.map_eq_some_iff.1 hmap.symm with ⟨⟨r', t⟩, hperform, heq⟩
  rcases Prod.mk.inj heq with ⟨rfl, hc⟩
  exact ⟨t, hperform, hc.symm⟩

theorem act_still_exists (por : Reset) (z : Byte) {a : Act} (h : a.Plain) {r : a.Ans} {t : Sys}
    (hperform : Sys.perform a s = some (r, t)) :
    ∃ c, node.act por z a (s.still, m) = some (r, c) ∧ c.1 = (s.latch t).still := by
  have hmap := act_still por z s m h
  rw [hperform] at hmap
  rcases Option.map_eq_some_iff.1 hmap with ⟨⟨r', c⟩, hact, heq⟩
  rcases Prod.mk.inj heq with ⟨rfl, hc⟩
  exact ⟨c, hact, hc⟩

end Act

/-! ## The programs use the bus as they may -/

section Plain

variable {α : Type}

theorem plain_liftBus {p : Driver α} (h : p.Every fun a => a.Primitive ∧ Chip.Open a) :
    (liftBus p).Every Act.Plain := by
  induction p with
  | ret x => trivial
  | act a k ih => exact ⟨h.1, fun r => ih r (h.2 r)⟩

theorem plain_readByte (addr : Byte) : (liftBus (readByte addr)).Every Act.Plain :=
  ⟨⟨trivial, trivial⟩, fun _ => trivial⟩

theorem plain_writeByte {addr : Byte} (haddr : ¬ ConfigOnly addr) (data : Byte) :
    (liftBus (writeByte addr data)).Every Act.Plain :=
  ⟨⟨trivial, haddr⟩, fun _ => trivial⟩

theorem plain_bitModify {addr : Byte} (haddr : ¬ ConfigOnly addr) (mask data : Byte) :
    (liftBus (bitModify addr mask data)).Every Act.Plain :=
  ⟨⟨trivial, haddr⟩, fun _ => trivial⟩

theorem plain_readsOnly {p : Driver α} (h : ReadsOnly p) : (liftBus p).Every Act.Plain := by
  induction p with
  | ret x => trivial
  | act a k ih =>
      rcases h.1 with ⟨addr, rfl⟩
      exact ⟨⟨trivial, trivial⟩, fun r => ih r (h.2 r)⟩

theorem plain_serviceError : serviceError.Every Act.Plain := by
  refine (plain_readByte EFLG).bind fun eflg => ?_
  refine (plain_bitModify (by decide) _ _).bind fun _ => ?_
  refine Prog.Every.bind (Prog.Every.when ?_) fun _ => ?_
  · refine (plain_writeByte (by decide) _).bind fun _ => ⟨trivial, fun _ => ?_⟩
    exact plain_writeByte (by decide) _
  · exact ⟨trivial, fun _ => ⟨trivial, fun _ => ⟨trivial, fun _ => trivial⟩⟩⟩

theorem plain_serviceFlags (intFlag : Byte) : (serviceFlags intFlag).Every Act.Plain := by
  have hgive : ∀ m, (give m).Every Act.Plain := fun m => ⟨trivial, fun _ => trivial⟩
  have hupdate : ∀ (v : Shared) (f : v.Val → v.Val),
      (load v >>= fun x => store v (f x)).Every Act.Plain :=
    fun v f => ⟨trivial, fun _ => ⟨trivial, fun _ => trivial⟩⟩
  have hclear : ∀ flag, (liftBus (bitModify CANINTF flag 0#8)).Every Act.Plain :=
    fun flag => plain_bitModify (by decide) flag _
  refine Prog.Every.bind (Prog.Every.when ?_) fun _ => ?_
  · exact ⟨trivial, fun _ => ⟨trivial, fun _ => trivial⟩⟩
  refine Prog.Every.bind (Prog.Every.when ((hclear _).bind fun _ => hupdate _ _)) fun _ => ?_
  refine Prog.Every.bind (Prog.Every.when ((hclear _).bind fun _ => hupdate _ _)) fun _ => ?_
  refine Prog.Every.bind (Prog.Every.when ((hclear _).bind fun _ => hupdate _ _)) fun _ => ?_
  refine Prog.Every.bind (Prog.Every.when (hgive _)) fun _ => ?_
  refine Prog.Every.bind (Prog.Every.when (hgive _)) fun _ => ?_
  exact Prog.Every.when (hgive _)

theorem plain_run (l : Loop) : (run l).Every Act.Plain := by
  cases l with
  | await =>
      refine ⟨trivial, fun exist => ?_⟩
      cases exist with
      | true => trivial
      | false => exact ⟨trivial, fun _ => trivial⟩
  | serve =>
      refine ⟨trivial, fun high => ?_⟩
      cases high with
      | true => exact ⟨trivial, fun _ => trivial⟩
      | false =>
          refine (plain_readByte CANINTF).bind fun intFlag => ?_
          split
          · exact plain_serviceError.bind fun _ => trivial
          · exact (plain_serviceFlags intFlag).bind fun _ => trivial

theorem plain_rxTake (n : RxBuf) (buf : Nat → Byte) (t : Nat) :
    (rxTake n buf t).Every Act.Plain :=
  ⟨trivial, fun _ => ⟨trivial, fun _ =>
    (plain_readsOnly (readsOnly_rxRead n buf)).bind fun _ => trivial⟩⟩

theorem plain_rxReadInTask (buf : Nat → Byte) : (rxReadInTask buf).Every Act.Plain := by
  refine ⟨trivial, fun _ => ⟨trivial, fun t => ⟨trivial, fun v => ?_⟩⟩⟩
  show Prog.Every Act.Plain
    (if v &&& 0x01#8 ≠ 0#8 then rxTake .b0 buf t else rxTake .b1 buf t)
  split
  · exact plain_rxTake .b0 buf t
  · exact plain_rxTake .b1 buf t

theorem not_configOnly_of_inTxb0 : ∀ a : Byte, InTxb0 a → ¬ ConfigOnly a := by
  decide

/-- A send with a CAN payload keeps to TXB0. -/
theorem plain_txBuffer0SendInTask {c : SendCall} (hlen : c.len ≤ 8#8) :
    (txBuffer0SendInTask c).Every Act.Plain := by
  have hsend : (liftBus (txBuffer0Send c.canId c.buf c.len)).Every Act.Plain := by
    refine plain_liftBus ?_
    rw [txBuffer0Send_eq]
    refine every_ofWrites fun w hw => ⟨trivial, ?_⟩
    rcases List.mem_append.1 hw with hbody | hrequest
    · exact not_configOnly_of_inTxb0 w.1 (txBody_inTxb0 c.canId c.buf c.len hlen w hbody)
    · rw [List.mem_singleton.1 hrequest]
      exact show ¬ ConfigOnly TXB0CTRL by decide
  have hload : (load .pendingTxBuf).Every Act.Plain := ⟨trivial, fun _ => trivial⟩
  have htake : (take .txSemaphore).Every Act.Plain := ⟨trivial, fun _ => trivial⟩
  refine hload.bind fun v => (Prog.Every.when htake).bind fun _ => ?_
  exact ⟨trivial, fun _ => ⟨trivial, fun _ => hsend⟩⟩

theorem Call.plain (c : Call) (x : c.party.Result) : (c.code x).Every Act.Plain := by
  cases c with
  | again => exact plain_run x
  | receive buf => exact plain_rxReadInTask buf
  | submit c hlen => exact plain_txBuffer0SendInTask hlen

end Plain

/-! ## One step of a program -/

section Code

variable {por : Reset} {z : Byte} {s t : Sys} {m : Mode} {a : Act} {r : a.Ans}

/-- An action leaves the control points and the history alone. -/
theorem perform_frame (h : Sys.perform a s = some (r, t)) :
    t.can = s.can ∧ t.reader = s.reader ∧ t.sender = s.sender ∧ t.trace = s.trace := by
  cases a with
  | take k =>
      rcases Option.map_eq_some_iff.1 h with ⟨t', htake, heq⟩
      cases heq
      cases k <;> simp only [Sys.take] at htake <;> split at htake <;> cases htake <;>
        exact ⟨rfl, rfl, rfl, rfl⟩
  | store v x =>
      cases h
      cases v <;> exact ⟨rfl, rfl, rfl, rfl⟩
  | give k =>
      cases h
      cases k <;> exact ⟨rfl, rfl, rfl, rfl⟩
  | _ =>
      cases h
      exact ⟨rfl, rfl, rfl, rfl⟩

variable {Pc β : Type} {A : Automaton Act Act.Ans Pc β} {code : Pc → Task β} {p : Pc}

theorem step_code_cases (hA : A.Unfolds code) (hplain : (code p).Every Act.Plain) {q : Task β}
    {c : Sys × Mode} (h : (code p).step (node.act por z) (s.still, m) = some (q, c)) :
    ∃ r t, Sys.perform (A.act p) s = some (r, t) ∧ q = (A.next p r).elim code .ret ∧
      c.1 = (s.latch t).still := by
  rw [hA p] at h hplain
  rcases Option.map_eq_some_iff.1 h with ⟨⟨r, c'⟩, hact, heq⟩
  cases heq
  rcases act_still_cases hplain.1 hact with ⟨t, hperform, hc⟩
  exact ⟨r, t, hperform, rfl, hc⟩

theorem step_code_exists (por : Reset) (z : Byte) (m : Mode) (hA : A.Unfolds code)
    (hplain : (code p).Every Act.Plain) {r : (A.act p).Ans}
    (h : Sys.perform (A.act p) s = some (r, t)) :
    ∃ c, (code p).step (node.act por z) (s.still, m) = some ((A.next p r).elim code .ret, c) ∧
      c.1 = (s.latch t).still := by
  rw [hA p] at hplain ⊢
  rcases act_still_exists (m := m) por z hplain.1 h with ⟨c, hact, hc⟩
  refine ⟨c, ?_, hc⟩
  rw [Prog.step, hact, Option.map_some]

/-- What is left of a program after a step is as plain as the program. -/
theorem plain_next (hA : A.Unfolds code) (hplain : (code p).Every Act.Plain) (r : (A.act p).Ans) :
    ((A.next p r).elim code .ret).Every Act.Plain := by
  rw [hA p] at hplain
  exact hplain.2 r

end Code

/-! ## The relation -/

def Event.result : Event → Option (Received × Nat)
  | .returned _ x t => some (x, t)
  | _ => none

namespace Sys

/-- What the last call of `rxReadInTask` returned; `x₀` before the first one. -/
def result (x₀ : Received × Nat) (s : Sys) : Received × Nat :=
  (s.trace.findSome? Event.result).getD x₀

def readerCode (x₀ : Received × Nat) (s : Sys) : Task (Received × Nat) :=
  match s.reader with
  | some p => p.code
  | none => .ret (s.result x₀)

def senderCode (s : Sys) : Task Unit :=
  match s.sender with
  | some p => p.code
  | none => .ret ()

end Sys

/-- The parties run what is left of their programs at the control points of `s`; `run` may have come
to the end of a turn. -/
structure Shows (x₀ : Received × Nat) (u : Threads Act Act.Ans (Sys × Mode) Party.Result) (s : Sys) :
    Prop where
  shared : u.shared.1 = s.still
  plain : ∀ i, (u.thread i).Every Act.Plain
  can : u.thread .canService = s.can.code ∨
    ∃ l, u.thread .canService = .ret l ∧ s.can = RunPc.head l
  reader : u.thread .reader = s.readerCode x₀
  sender : u.thread .sender = s.senderCode

section Steps

variable {por : Reset} {z : Byte} {x₀ : Received × Nat} {s t : Sys}
  {u v : Threads Act Act.Ans (Sys × Mode) Party.Result}

theorem Shows.eq_shared (h : Shows x₀ u s) : u.shared = (s.still, u.shared.2) :=
  Prod.ext h.shared rfl

/-! ### `canService` -/

theorem Sys.can_step (s : Sys) :
    Sys.step .canService s = (Sys.perform s.can.act s).map fun q =>
      s.latch { q.2 with can := RunPc.goto (s.can.next q.1) } := by
  rw [Sys.step, Sys.move, canStep_at rfl, Option.map_map]
  rfl

/-- `canService` at a control point, in both systems. -/
theorem Shows.can_update (h : Shows x₀ u s) {c : Sys × Mode} {r : (RunPc.act s.can).Ans}
    (hperform : Sys.perform (RunPc.act s.can) s = some (r, t)) (hc : c.1 = (s.latch t).still)
    (hplain : ((RunPc.next s.can r).elim RunPc.code .ret).Every Act.Plain) :
    Shows x₀ ⟨c, Function.update u.thread .canService ((RunPc.next s.can r).elim RunPc.code .ret)⟩
      (s.latch { t with can := RunPc.goto (RunPc.next s.can r) }) := by
  rcases perform_frame hperform with ⟨_, hreader, hsender, htrace⟩
  refine ⟨hc, Prog.every_update h.plain hplain, ?_, ?_, ?_⟩
  · simp only [Function.update_self]
    cases RunPc.next s.can r with
    | inl q => exact Or.inl rfl
    | inr l => exact Or.inr ⟨l, rfl, rfl⟩
  · simp only [Function.update_of_ne (show Party.reader ≠ .canService by decide), h.reader]
    simp only [Sys.readerCode, Sys.result, Sys.latch, hreader, htrace]
  · simp only [Function.update_of_ne (show Party.sender ≠ .canService by decide), h.sender]
    simp only [Sys.senderCode, Sys.latch, hsender]

/-- At the end of a turn `run` goes on with the next one. -/
theorem Shows.again (h : Shows x₀ u s) {l : Loop} (hl : u.thread .canService = .ret l) :
    Shows x₀ { u with thread := Function.update u.thread .canService (run l) } s := by
  have hhead : s.can = RunPc.head l := by
    rcases h.can with hcode | ⟨l', hl', hhead⟩
    · rw [hl, runAutomaton_unfolds s.can] at hcode
      cases hcode
    · rw [hl] at hl'
      cases hl'
      exact hhead
  refine ⟨h.shared, Prog.every_update h.plain (plain_run l), ?_, ?_, ?_⟩
  · simp only [Function.update_self, hhead]
    cases l <;> exact Or.inl rfl
  · simp only [Function.update_of_ne (show Party.reader ≠ .canService by decide), h.reader]
  · simp only [Function.update_of_ne (show Party.sender ≠ .canService by decide), h.sender]

theorem Shows.can_step (h : Shows x₀ u s)
    (hl : (tasks.machine node por z).step (.act .canService) u = some v) :
    ∃ t, Shows x₀ v t ∧ Sys.step .canService s = some t := by
  rcases Machine.step_act_cases hl with ⟨q, c, hstep, rfl⟩
  rcases h.can with hcode | ⟨l, hret, _⟩
  · have hplain := h.plain .canService
    rw [hcode] at hstep hplain
    rw [h.eq_shared] at hstep
    rcases step_code_cases runAutomaton_unfolds hplain hstep with ⟨r, t, hperform, rfl, hc⟩
    refine ⟨_, h.can_update hperform hc (plain_next runAutomaton_unfolds hplain r), ?_⟩
    rw [Sys.can_step]
    exact congrArg (Option.map _) hperform
  · rw [hret] at hstep
    cases hstep

theorem Shows.can_exists (por : Reset) (z : Byte) (h : Shows x₀ u s)
    (hcode : u.thread .canService = s.can.code) (hl : Sys.step .canService s = some t) :
    ∃ v, Shows x₀ v t ∧ (tasks.machine node por z).step (.act .canService) u = some v := by
  rw [Sys.can_step] at hl
  rcases Option.map_eq_some_iff.1 hl with ⟨⟨r, t₀⟩, hperform, rfl⟩
  have hplain := h.plain .canService
  rw [hcode] at hplain
  rcases step_code_exists por z u.shared.2 runAutomaton_unfolds hplain hperform with
    ⟨c, hstep, hc⟩
  rw [← h.eq_shared, ← hcode] at hstep
  exact ⟨_, h.can_update hperform hc (plain_next runAutomaton_unfolds hplain r),
    Machine.step_act hstep⟩

/-! ### The reader -/

/-- Where `rxReadInTask` goes on, or its return. -/
def Sys.readOn (p : ReadPc) (q : ReadPc ⊕ (Received × Nat)) (t : Sys) : Sys :=
  match q with
  | .inl q => { t with reader := some q }
  | .inr (x, now) => { t with reader := none, trace := .returned p.buffer x now :: t.trace }

theorem Sys.reader_step {p : ReadPc} (hpc : s.reader = some p) :
    Sys.step .reader s =
      (Sys.perform p.act s).map fun q => s.latch (q.2.readOn p (p.next q.1)) := by
  rw [Sys.step, Sys.move, readerStep_at hpc, Option.map_map]
  rfl

theorem Shows.reader_update (h : Shows x₀ u s) {p : ReadPc} {c : Sys × Mode} {r : p.act.Ans}
    (hperform : Sys.perform p.act s = some (r, t)) (hc : c.1 = (s.latch t).still)
    (hplain : ((p.next r).elim ReadPc.code .ret).Every Act.Plain) :
    Shows x₀ ⟨c, Function.update u.thread .reader ((p.next r).elim ReadPc.code .ret)⟩
      (s.latch (t.readOn p (p.next r))) := by
  rcases perform_frame hperform with ⟨hcan, _, hsender, _⟩
  have hon : ∀ q, (s.latch (t.readOn p q)).still = (s.latch t).still ∧
      (t.readOn p q).can = t.can ∧ (t.readOn p q).sender = t.sender := by
    rintro (q | ⟨x, now⟩) <;> exact ⟨rfl, rfl, rfl⟩
  refine ⟨hc.trans (hon _).1.symm, Prog.every_update h.plain hplain, ?_, ?_, ?_⟩
  · simp only [Function.update_of_ne (show Party.canService ≠ .reader by decide), Sys.latch,
      (hon _).2.1, hcan]
    exact h.can
  · simp only [Function.update_self]
    cases p.next r with
    | inl q => rfl
    | inr x => rfl
  · simp only [Function.update_of_ne (show Party.sender ≠ .reader by decide), h.sender,
      Sys.senderCode, Sys.latch, (hon _).2.2, hsender]

theorem Shows.reader_step (h : Shows x₀ u s)
    (hl : (tasks.machine node por z).step (.act .reader) u = some v) :
    ∃ t, Shows x₀ v t ∧ Sys.step .reader s = some t := by
  rcases Machine.step_act_cases hl with ⟨q, c, hstep, rfl⟩
  have hplain := h.plain .reader
  rw [h.reader, Sys.readerCode] at hstep hplain
  cases hpc : s.reader with
  | none =>
      simp only [hpc] at hstep
      cases hstep
  | some p =>
      simp only [hpc] at hstep hplain
      rw [h.eq_shared] at hstep
      rcases step_code_cases readAutomaton_unfolds hplain hstep with ⟨r, t, hperform, rfl, hc⟩
      refine ⟨_, h.reader_update hperform hc (plain_next readAutomaton_unfolds hplain r), ?_⟩
      rw [Sys.reader_step hpc]
      exact congrArg (Option.map _) hperform

theorem Shows.reader_exists (por : Reset) (z : Byte) (h : Shows x₀ u s)
    (hl : Sys.step .reader s = some t) :
    ∃ v, Shows x₀ v t ∧ (tasks.machine node por z).step (.act .reader) u = some v := by
  cases hpc : s.reader with
  | none => simp [Sys.step, Sys.move, Sys.readerStep, hpc] at hl
  | some p =>
      rw [Sys.reader_step hpc] at hl
      rcases Option.map_eq_some_iff.1 hl with ⟨⟨r, t₀⟩, hperform, rfl⟩
      have hcode : u.thread .reader = p.code := by
        rw [h.reader, Sys.readerCode, hpc]
      have hplain := h.plain .reader
      rw [hcode] at hplain
      rcases step_code_exists por z u.shared.2 readAutomaton_unfolds hplain hperform with
        ⟨c, hstep, hc⟩
      rw [← h.eq_shared, ← hcode] at hstep
      exact ⟨_, h.reader_update hperform hc (plain_next readAutomaton_unfolds hplain r),
        Machine.step_act hstep⟩

/-! ### The sender -/

/-- Where `txBuffer0SendInTask` goes on, or its return. -/
def Sys.sendOn (q : SendPc ⊕ Unit) (t : Sys) : Sys :=
  match q with
  | .inl q => { t with sender := some q }
  | .inr () => { t with sender := none }

theorem Sys.sender_step {p : SendPc} (hpc : s.sender = some p) :
    Sys.step .sender s =
      (Sys.perform p.act s).map fun q => s.latch (q.2.sendOn (p.next q.1)) := by
  rw [Sys.step, Sys.move, senderStep_at hpc, Option.map_map]
  rfl

theorem Shows.sender_update (h : Shows x₀ u s) {p : SendPc} {c : Sys × Mode} {r : p.act.Ans}
    (hperform : Sys.perform p.act s = some (r, t)) (hc : c.1 = (s.latch t).still)
    (hplain : ((p.next r).elim SendPc.code .ret).Every Act.Plain) :
    Shows x₀ ⟨c, Function.update u.thread .sender ((p.next r).elim SendPc.code .ret)⟩
      (s.latch (t.sendOn (p.next r))) := by
  rcases perform_frame hperform with ⟨hcan, hreader, _, htrace⟩
  have hon : ∀ q, (s.latch (t.sendOn q)).still = (s.latch t).still ∧ (t.sendOn q).can = t.can ∧
      (t.sendOn q).reader = t.reader ∧ (t.sendOn q).trace = t.trace := by
    rintro (q | ⟨⟩) <;> exact ⟨rfl, rfl, rfl, rfl⟩
  refine ⟨hc.trans (hon _).1.symm, Prog.every_update h.plain hplain, ?_, ?_, ?_⟩
  · simp only [Function.update_of_ne (show Party.canService ≠ .sender by decide), Sys.latch,
      (hon _).2.1, hcan]
    exact h.can
  · simp only [Function.update_of_ne (show Party.reader ≠ .sender by decide), h.reader,
      Sys.readerCode, Sys.result, Sys.latch, (hon _).2.2.1, (hon _).2.2.2, hreader, htrace]
  · simp only [Function.update_self]
    cases p.next r with
    | inl q => rfl
    | inr x => rfl

theorem Shows.sender_step (h : Shows x₀ u s)
    (hl : (tasks.machine node por z).step (.act .sender) u = some v) :
    ∃ t, Shows x₀ v t ∧ Sys.step .sender s = some t := by
  rcases Machine.step_act_cases hl with ⟨q, c, hstep, rfl⟩
  have hplain := h.plain .sender
  rw [h.sender, Sys.senderCode] at hstep hplain
  cases hpc : s.sender with
  | none =>
      simp only [hpc] at hstep
      cases hstep
  | some p =>
      simp only [hpc] at hstep hplain
      rw [h.eq_shared] at hstep
      rcases step_code_cases sendAutomaton_unfolds hplain hstep with ⟨r, t, hperform, rfl, hc⟩
      refine ⟨_, h.sender_update hperform hc (plain_next sendAutomaton_unfolds hplain r), ?_⟩
      rw [Sys.sender_step hpc]
      exact congrArg (Option.map _) hperform

theorem Shows.sender_exists (por : Reset) (z : Byte) (h : Shows x₀ u s)
    (hl : Sys.step .sender s = some t) :
    ∃ v, Shows x₀ v t ∧ (tasks.machine node por z).step (.act .sender) u = some v := by
  cases hpc : s.sender with
  | none => simp [Sys.step, Sys.move, Sys.senderStep, hpc] at hl
  | some p =>
      rw [Sys.sender_step hpc] at hl
      rcases Option.map_eq_some_iff.1 hl with ⟨⟨r, t₀⟩, hperform, rfl⟩
      have hcode : u.thread .sender = p.code := by
        rw [h.sender, Sys.senderCode, hpc]
      have hplain := h.plain .sender
      rw [hcode] at hplain
      rcases step_code_exists por z u.shared.2 sendAutomaton_unfolds hplain hperform with
        ⟨c, hstep, hc⟩
      rw [← h.eq_shared, ← hcode] at hstep
      exact ⟨_, h.sender_update hperform hc (plain_next sendAutomaton_unfolds hplain r),
        Machine.step_act hstep⟩

/-! ### Calls and events -/

theorem Sys.latch_of_regs (h : t.regs = s.regs) : s.latch t = t := by
  have hline : t.intHigh = s.intHigh := by
    rw [Sys.intHigh, Sys.intHigh, h]
  simp [Sys.latch, hline]

theorem Sys.receive_step {buf : Nat → Byte} (hnone : s.reader = none) :
    Sys.step (.receive buf) s = some { s with reader := some (.take buf) } := by
  simp only [Sys.step, Sys.move, Sys.receive, hnone, Option.map_some]
  exact congrArg some (Sys.latch_of_regs rfl)

theorem Sys.submit_step {c : SendCall} (hnone : s.sender = none) :
    Sys.step (.submit c) s =
      some { s with sender := some (.test c), trace := .submitted c :: s.trace } := by
  simp only [Sys.step, Sys.move, Sys.submit, hnone, Option.map_some]
  exact congrArg some (Sys.latch_of_regs rfl)

theorem Shows.receive_update (h : Shows x₀ u s) (buf : Nat → Byte) :
    Shows x₀ { u with thread := Function.update u.thread .reader (rxReadInTask buf) }
      { s with reader := some (.take buf) } := by
  refine ⟨h.shared, Prog.every_update h.plain (plain_rxReadInTask buf), ?_, ?_, ?_⟩
  · simp only [Function.update_of_ne (show Party.canService ≠ .reader by decide)]
    exact h.can
  · simp only [Function.update_self]
    rfl
  · simp only [Function.update_of_ne (show Party.sender ≠ .reader by decide)]
    exact h.sender

theorem Shows.submit_update (h : Shows x₀ u s) {c : SendCall} (hlen : c.len ≤ 8#8) :
    Shows x₀ { u with thread := Function.update u.thread .sender (txBuffer0SendInTask c) }
      { s with sender := some (.test c), trace := .submitted c :: s.trace } := by
  refine ⟨h.shared, Prog.every_update h.plain (plain_txBuffer0SendInTask hlen), ?_, ?_, ?_⟩
  · simp only [Function.update_of_ne (show Party.canService ≠ .sender by decide)]
    exact h.can
  · simp only [Function.update_of_ne (show Party.reader ≠ .sender by decide)]
    exact h.reader
  · simp only [Function.update_self]
    rfl

theorem Shows.reader_ret (h : Shows x₀ u s) {x : Received × Nat} :
    u.thread .reader = .ret x ↔ s.reader = none ∧ x = s.result x₀ := by
  rw [h.reader, Sys.readerCode]
  cases hpc : s.reader with
  | none => simp [eq_comm]
  | some p => simp [readAutomaton_unfolds p]

theorem Shows.sender_ret (h : Shows x₀ u s) : u.thread .sender = .ret () ↔ s.sender = none := by
  rw [h.sender, Sys.senderCode]
  cases hpc : s.sender with
  | none => simp
  | some p => simp [sendAutomaton_unfolds p]

/-- A call of the user's task begins in both systems. -/
theorem Shows.call_step {c : Call} {l : Label} (h : Shows x₀ u s) (hseen : c.label = some l)
    (hl : (tasks.machine node por z).step (.call c) u = some v) :
    ∃ t, Shows x₀ v t ∧ Sys.step l s = some t := by
  rcases Machine.step_call_cases hl with ⟨x, hx, rfl⟩
  cases c with
  | again => cases hseen
  | receive buf =>
      cases hseen
      exact ⟨_, h.receive_update buf, Sys.receive_step (h.reader_ret.1 hx).1⟩
  | submit c hlen =>
      cases hseen
      exact ⟨_, h.submit_update hlen, Sys.submit_step (h.sender_ret.1 hx)⟩

theorem Shows.call_exists (por : Reset) (z : Byte) {c : Call} {l : Label} (h : Shows x₀ u s)
    (hseen : c.label = some l) (hl : Sys.step l s = some t) :
    ∃ v, Shows x₀ v t ∧ (tasks.machine node por z).step (.call c) u = some v := by
  cases c with
  | again => cases hseen
  | receive buf =>
      cases hseen
      rcases Option.map_eq_some_iff.1 hl with ⟨t₀, hmove, _⟩
      have hnone := (Sys.eq_of_receive hmove).1
      rw [Sys.receive_step hnone] at hl
      cases hl
      exact ⟨_, h.receive_update buf,
        Machine.step_call (M := tasks.machine node por z) (c := Call.receive buf)
          (h.reader_ret.2 ⟨hnone, rfl⟩)⟩
  | submit c hlen =>
      cases hseen
      rcases Option.map_eq_some_iff.1 hl with ⟨t₀, hmove, _⟩
      have hnone := (Sys.eq_of_submit hmove).1
      rw [Sys.submit_step hnone] at hl
      cases hl
      exact ⟨_, h.submit_update hlen,
        Machine.step_call (M := tasks.machine node por z) (c := Call.submit c hlen)
          (h.sender_ret.2 hnone)⟩

/-! What happens by itself looks at no control point, and tells nothing of a result. -/

theorem Happening.step_still {e : Happening} {l : Label} (hseen : e.label = some l) :
    (Sys.step l s.still).map Sys.still = (Sys.step l s).map Sys.still := by
  cases e with
  | irqHandler now =>
      cases hseen
      show Option.map _ (Option.map _ (if s.edge then _ else _)) =
        Option.map _ (Option.map _ (if s.edge then _ else _))
      split <;> rfl
  | arrive img =>
      cases hseen
      have htarget : s.still.rxTarget = s.rxTarget := rfl
      simp only [Sys.step, Sys.move, Sys.arrive, htarget, Option.map_some]
      cases s.rxTarget <;> rfl
  | complete =>
      cases hseen
      show Option.map _ (Option.map _ (if s.regs TXB0CTRL &&& TXREQ ≠ 0#8 then _ else _)) =
        Option.map _ (Option.map _ (if s.regs TXB0CTRL &&& TXREQ ≠ 0#8 then _ else _))
      split <;> rfl
  | raise flags eflg =>
      cases hseen
      rfl
  | mode m => cases hseen

theorem Happening.step_frame {e : Happening} {l : Label} (hseen : e.label = some l)
    (h : Sys.step l s = some t) :
    t.can = s.can ∧ t.reader = s.reader ∧ t.sender = s.sender ∧
      ∀ x₀, t.result x₀ = s.result x₀ := by
  rcases Option.map_eq_some_iff.1 h with ⟨t₀, hmove, rfl⟩
  cases e with
  | irqHandler now =>
      cases hseen
      rcases Sys.eq_of_irqHandler hmove with ⟨_, rfl⟩
      exact ⟨rfl, rfl, rfl, fun _ => rfl⟩
  | arrive img =>
      cases hseen
      cases hmove
      simp only [Sys.arrive]
      cases s.rxTarget <;> exact ⟨rfl, rfl, rfl, fun _ => rfl⟩
  | complete =>
      cases hseen
      simp only [Sys.move, Sys.complete] at hmove
      split at hmove
      · cases hmove
        exact ⟨rfl, rfl, rfl, fun _ => rfl⟩
      · cases hmove
  | raise flags eflg =>
      cases hseen
      cases hmove
      exact ⟨rfl, rfl, rfl, fun _ => rfl⟩
  | mode m => cases hseen

theorem Shows.event_update {e : Happening} {l : Label} (h : Shows x₀ u s)
    (hseen : e.label = some l) (hl : Sys.step l s = some t) {c : Sys × Mode}
    (hc : c.1 = t.still) : Shows x₀ { u with shared := c } t := by
  rcases Happening.step_frame hseen hl with ⟨hcan, hreader, hsender, hresult⟩
  refine ⟨hc, h.plain, ?_, ?_, ?_⟩
  · simp only [hcan]
    exact h.can
  · simp only [h.reader, Sys.readerCode, hreader, hresult]
  · simp only [h.sender, Sys.senderCode, hsender]

theorem Shows.event_step {e : Happening} {l : Label} (h : Shows x₀ u s) (hseen : e.label = some l)
    (hl : (tasks.machine node por z).step (.event e) u = some v) :
    ∃ t, Shows x₀ v t ∧ Sys.step l s = some t := by
  rcases Machine.step_event_cases hl with ⟨c, hc, rfl⟩
  have happly : e.apply u.shared = some c := hc
  rw [h.eq_shared] at happly
  simp only [Happening.apply, hseen] at happly
  rcases Option.map_eq_some_iff.1 happly with ⟨t', hstep, rfl⟩
  have hstill := Happening.step_still (s := s) hseen
  rw [hstep] at hstill
  rcases Option.map_eq_some_iff.1 hstill.symm with ⟨t, ht, heq⟩
  exact ⟨t, h.event_update hseen ht heq.symm, ht⟩

theorem Shows.event_exists (por : Reset) (z : Byte) {e : Happening} {l : Label} (h : Shows x₀ u s)
    (hseen : e.label = some l) (hl : Sys.step l s = some t) :
    ∃ v, Shows x₀ v t ∧ (tasks.machine node por z).step (.event e) u = some v := by
  have hstill := Happening.step_still (s := s) hseen
  rw [hl] at hstill
  rcases Option.map_eq_some_iff.1 hstill with ⟨t', ht', heq⟩
  have happly : e.apply u.shared = some (t'.still, e.modeAfter u.shared.2) := by
    rw [h.eq_shared]
    simp only [Happening.apply, hseen, ht', Option.map_some]
  exact ⟨_, h.event_update (c := (t'.still, e.modeAfter u.shared.2)) hseen hl heq,
    Machine.step_event (M := tasks.machine node por z) happly⟩

/-! ### Any step -/

/-- A step of the programs is a step of `Sys`; the next turn of `run` and a change of the mode are
none. -/
theorem Shows.step {l : Machine.Label Party Call Happening} (h : Shows x₀ u s)
    (hl : (tasks.machine node por z).step l u = some v) :
    ∃ t ks, Shows x₀ v t ∧ Run Sys.step Free s ks t ∧
      ks.filterMap Label.seen = [l].filterMap seen := by
  cases l with
  | act i =>
      cases i with
      | canService =>
          rcases h.can_step hl with ⟨t, ht, hstep⟩
          exact ⟨t, [.canService], ht, .single trivial hstep, rfl⟩
      | reader =>
          rcases h.reader_step hl with ⟨t, ht, hstep⟩
          exact ⟨t, [.reader], ht, .single trivial hstep, rfl⟩
      | sender =>
          rcases h.sender_step hl with ⟨t, ht, hstep⟩
          exact ⟨t, [.sender], ht, .single trivial hstep, rfl⟩
  | call c =>
      cases c with
      | again =>
          rcases Machine.step_call_cases hl with ⟨l, hret, rfl⟩
          exact ⟨s, [], h.again hret, .nil s, rfl⟩
      | receive buf =>
          rcases h.call_step rfl hl with ⟨t, ht, hstep⟩
          exact ⟨t, [.receive buf], ht, .single trivial hstep, rfl⟩
      | submit c hlen =>
          rcases h.call_step rfl hl with ⟨t, ht, hstep⟩
          exact ⟨t, [.submit c], ht, .single trivial hstep, rfl⟩
  | event e =>
      cases e with
      | mode m =>
          rcases Machine.step_event_cases hl with ⟨c, hc, rfl⟩
          cases hc
          exact ⟨s, [], ⟨h.shared, h.plain, h.can, h.reader, h.sender⟩, .nil s, rfl⟩
      | irqHandler now =>
          rcases h.event_step rfl hl with ⟨t, ht, hstep⟩
          exact ⟨t, [.irqHandler now], ht, .single trivial hstep, rfl⟩
      | arrive img =>
          rcases h.event_step rfl hl with ⟨t, ht, hstep⟩
          exact ⟨t, [.arrive img], ht, .single trivial hstep, rfl⟩
      | complete =>
          rcases h.event_step rfl hl with ⟨t, ht, hstep⟩
          exact ⟨t, [.complete], ht, .single trivial hstep, rfl⟩
      | raise flags eflg =>
          rcases h.event_step rfl hl with ⟨t, ht, hstep⟩
          exact ⟨t, [.raise flags eflg], ht, .single trivial hstep, rfl⟩

/-- The user's tasks send CAN payloads. -/
def Label.Payload (l : Label) : Prop :=
  ∀ c, l = .submit c → c.len ≤ 8#8

/-- A step of `Sys` is a step of the programs, with the next turn of `run` before it where the last
one has ended. -/
theorem Shows.step_exists (por : Reset) (z : Byte) {l : Label} (h : Shows x₀ u s)
    (hpayload : l.Payload) (hl : Sys.step l s = some t) :
    ∃ v ms, Shows x₀ v t ∧ Run (tasks.machine node por z).step Free u ms v ∧
      ms.filterMap seen = [l].filterMap Label.seen := by
  cases l with
  | canService =>
      rcases h.can with hcode | ⟨l, hret, _⟩
      · rcases h.can_exists por z hcode hl with ⟨v, hv, hstep⟩
        exact ⟨v, [.act .canService], hv, .single trivial hstep, rfl⟩
      · have hagain := h.again hret
        have hcode : Function.update u.thread .canService (run l) .canService = s.can.code := by
          rcases hagain.can with hcode | ⟨l', hret', _⟩
          · exact hcode
          · simp only [Function.update_self] at hret'
            cases l <;> cases hret'
        rcases hagain.can_exists por z hcode hl with ⟨v, hv, hstep⟩
        have hcall := Machine.step_call (M := tasks.machine node por z) (c := Call.again) hret
        exact ⟨v, [.call .again, .act .canService], hv,
          .cons trivial hcall (.single trivial hstep), rfl⟩
  | reader =>
      rcases h.reader_exists por z hl with ⟨v, hv, hstep⟩
      exact ⟨v, [.act .reader], hv, .single trivial hstep, rfl⟩
  | sender =>
      rcases h.sender_exists por z hl with ⟨v, hv, hstep⟩
      exact ⟨v, [.act .sender], hv, .single trivial hstep, rfl⟩
  | receive buf =>
      rcases h.call_exists por z (c := .receive buf) rfl hl with ⟨v, hv, hstep⟩
      exact ⟨v, [.call (.receive buf)], hv, .single trivial hstep, rfl⟩
  | submit c =>
      rcases h.call_exists por z (c := .submit c (hpayload c rfl)) rfl hl with ⟨v, hv, hstep⟩
      exact ⟨v, [.call (.submit c (hpayload c rfl))], hv, .single trivial hstep, rfl⟩
  | irqHandler now =>
      rcases h.event_exists por z (e := .irqHandler now) rfl hl with ⟨v, hv, hstep⟩
      exact ⟨v, [.event (.irqHandler now)], hv, .single trivial hstep, rfl⟩
  | arrive img =>
      rcases h.event_exists por z (e := .arrive img) rfl hl with ⟨v, hv, hstep⟩
      exact ⟨v, [.event (.arrive img)], hv, .single trivial hstep, rfl⟩
  | complete =>
      rcases h.event_exists por z (e := .complete) rfl hl with ⟨v, hv, hstep⟩
      exact ⟨v, [.event .complete], hv, .single trivial hstep, rfl⟩
  | raise flags eflg =>
      rcases h.event_exists por z (e := .raise flags eflg) rfl hl with ⟨v, hv, hstep⟩
      exact ⟨v, [.event (.raise flags eflg)], hv, .single trivial hstep, rfl⟩

end Steps

/-! ## Runs -/

/-- Each party before its first action. -/
def bootCode (x₀ : Received × Nat) : (i : Party) → Task i.Result
  | .canService => run .await
  | .reader => .ret x₀
  | .sender => .ret ()

/-- The programs on the wire, after `initialInTask`. -/
def wireBoot (r : Regs) (m : Mode) (phase : Phase) (x₀ : Received × Nat) :
    Threads WireAct WireAct.Ans (WireState Party (Sys × Mode)) Party.Result where
  shared := ⟨.idle, (Sys.boot r, m), phase⟩
  thread i := (bootCode x₀ i).expand Act.onWire

theorem plain_bootCode (x₀ : Received × Nat) (i : Party) : (bootCode x₀ i).Every Act.Plain := by
  cases i with
  | canService => exact plain_run .await
  | _ => trivial

theorem shows_boot (r : Regs) (m : Mode) (x₀ : Received × Nat) :
    Shows x₀ ⟨(Sys.boot r, m), bootCode x₀⟩ (Sys.boot r) where
  shared := rfl
  plain := plain_bootCode x₀
  can := Or.inl rfl
  reader := rfl
  sender := rfl

/-- The programs of the source on one bus, byte by byte, with a controller that decodes
instructions, and with CAN payloads: every run shows from outside a run of `Sys`, with the
registers, the kernel objects and the shared variables as they are there and the same results; and
every such run of `Sys` is there on the wire. -/
theorem system_on_wire (por : Reset) (z : Byte) (r : Regs) (m : Mode) (phase : Phase)
    (x₀ : Received × Nat) :
    (∀ ls t, Run (onWire node por z tasks).machine.step Free (wireBoot r m phase x₀) ls t →
      t.shared.bus.fired = false ∧
      ∃ ks s, Run Sys.step Free (Sys.boot r) ks s ∧
        ks.filterMap Label.seen = ls.filterMap seen ∧ t.shared.core.1 = s.still ∧
        (∀ x, t.thread .reader = .ret x → s.reader = none ∧ x = s.result x₀) ∧
        (t.thread .sender = .ret () → s.sender = none)) ∧
    (∀ ks s, Run Sys.step (fun _ l => l.Payload) (Sys.boot r) ks s →
      ∃ ls t, Run (onWire node por z tasks).machine.step Free (wireBoot r m phase x₀) ls t ∧
        ls.filterMap seen = ks.filterMap Label.seen ∧ t.shared.bus = .idle ∧
        t.shared.core.1 = s.still ∧
        (s.reader = none → t.thread .reader = .ret (s.result x₀)) ∧
        (s.sender = none → t.thread .sender = .ret ())) := by
  have hlawful : (onWire node por z tasks).Lawful := onWire_lawful
  have hprim : ∀ c x, (tasks.entry c x).Every Act.Primitive :=
    fun c x => (Call.plain c x).mono fun _ h => h.primitive
  have hstart : (onWire node por z tasks).Matches none (wireBoot r m phase x₀)
      ⟨(Sys.boot r, m), bootCode x₀⟩ :=
    .start (fun i => (plain_bootCode x₀ i).mono fun _ h => h.primitive) rfl
  constructor
  · intro ls t hrun
    rcases hlawful.run hprim hstart hrun with ⟨u, ms, ⟨holder, hmatches⟩, hrun', hshown⟩
    rcases hrun'.simulates_visible (fun u s l v h _ hl => Shows.step h hl) (shows_boot r m x₀) with
      ⟨s, ks, hshows, hrun'', hseen⟩
    refine ⟨fired_of_matches hmatches, ks, s, hrun'', ?_, ?_, fun x hx => ?_, fun hx => ?_⟩
    · rw [hseen, filterMap_seen, filterMap_seen, hshown]
    · rw [← hshows.shared, hmatches.view]
      rfl
    · exact hshows.reader_ret.1 (hlawful.ret_of_matches hmatches hx)
    · exact hshows.sender_ret.1 (hlawful.ret_of_matches hmatches hx)
  · intro ks s hrun
    rcases hrun.simulates_visible (fun s u l t h hok hl => Shows.step_exists por z h hok hl)
      (shows_boot r m x₀) with ⟨u, ms, hshows, hrun', hseen⟩
    rcases hlawful.run_exists hprim hstart hrun' with ⟨t, ls, hmatches, hrun'', hshown⟩
    have hthread : ∀ i, t.thread i = (u.thread i).expand Act.onWire :=
      fun i => hmatches.outside i fun h => Option.some_ne_none i h.symm
    refine ⟨ls, t, hrun'', ?_, hmatches.unlocked rfl, ?_, fun hx => ?_, fun hx => ?_⟩
    · rw [← hseen, filterMap_seen, filterMap_seen, hshown]
    · rw [← hshows.shared, hmatches.view]
      rfl
    · rw [hthread, hshows.reader_ret.2 ⟨hx, rfl⟩]
      rfl
    · rw [hthread, hshows.sender_ret.2 hx]
      rfl

end Mcp2515Task
end PicoCppSdk
