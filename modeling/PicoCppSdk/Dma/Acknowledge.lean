import PicoCppSdk.Dma.Dispatch

/-!
# Acknowledge — blocks that complete while `dma_handler0` is running

`dma_handler0` calls the callback of a pending channel and acknowledges the channel afterwards.  The
callback lets the next block start; if that one completes before the acknowledge, its pending bit is
cleared along with the old one, and its callback is never called.

This is the only way to lose a completion.
-/

namespace PicoCppSdk
namespace Dma

open Atomic Transition

variable {n : Nat} {Fn Ptr : Type}

/-! ## The control points of the handler -/

/-- Where `dma_handler0` is; `cs` are the channels after `c` in the loop. -/
inductive IsrPc (n : Nat) (Fn : Type) where
  | status (c : Fin n) (cs : List (Fin n))
  | call (f : Fn) (c : Fin n) (cs : List (Fin n))
  | acknowledge (c : Fin n) (cs : List (Fin n))

namespace IsrPc

/-- The head of the loop over `cs`, or its end. -/
def fromLoop : List (Fin n) → IsrPc n Fn ⊕ Unit
  | [] => .inr ()
  | c :: cs => .inl (.status c cs)

variable (table : Fin n → Callback Fn Ptr)

/-- Behind the status of `c`. -/
def fromStatus (c : Fin n) (cs : List (Fin n)) (pending : Bool) : IsrPc n Fn ⊕ Unit :=
  match (table c).callback with
  | some f => if pending = true then .inl (.call f c cs) else fromLoop cs
  | none => fromLoop cs

def act : IsrPc n Fn → Act n Fn Ptr
  | .status c _ => .getStatus .irq0 c
  | .call f c _ => .call f (table c).param
  | .acknowledge c _ => .acknowledge .irq0 c

def next : (p : IsrPc n Fn) → (act table p).Ans → IsrPc n Fn ⊕ Unit
  | .status c cs, pending => fromStatus table c cs pending
  | .call _ c cs, _ => .inl (.acknowledge c cs)
  | .acknowledge _ cs, _ => fromLoop cs

/-- The rest of the handler at a control point. -/
def code : IsrPc n Fn → Isr n Fn Ptr Unit
  | .status c cs => serveAll table (c :: cs)
  | .call f c cs => do
      Dma.call f (table c).param
      Dma.acknowledge .irq0 c
      serveAll table cs
  | .acknowledge c cs => do
      Dma.acknowledge .irq0 c
      serveAll table cs

theorem codeAt_fromLoop (cs : List (Fin n)) :
    (fromLoop cs).elim (code table) .ret = serveAll table cs := by
  cases cs <;> rfl

end IsrPc

def isrAutomaton (table : Fin n → Callback Fn Ptr) :
    Automaton (Act n Fn Ptr) Act.Ans (IsrPc n Fn) Unit where
  act := IsrPc.act table
  next := IsrPc.next table

/-- The automaton is the loop of the handler. -/
theorem isrAutomaton_unfolds (table : Fin n → Callback Fn Ptr) :
    (isrAutomaton table).Unfolds (IsrPc.code table) := by
  intro p
  cases p with
  -- Control point by control point; both branches of the test end at the head of the loop.
  | status c cs =>
      simp only [IsrPc.code, serveAll, serve, getStatus, Prog.act_bind, Prog.ret_bind]
      refine congrArg (Prog.act _) (funext fun pending => ?_)
      simp only [isrAutomaton, IsrPc.next, IsrPc.fromStatus]
      cases (table c).callback with
      | none => exact (IsrPc.codeAt_fromLoop table cs).symm
      | some f =>
          by_cases hpending : pending = true
          · simp only [if_pos hpending, Prog.when_pos hpending]
            rfl
          · simp only [if_neg hpending, Prog.when_neg hpending]
            exact (IsrPc.codeAt_fromLoop table cs).symm
  | call f c cs => rfl
  | acknowledge c cs =>
      refine congrArg (Prog.act _) (funext fun _ => ?_)
      exact (IsrPc.codeAt_fromLoop table cs).symm

/-- The loop starts as the handler of line `L` does. -/
theorem codeAt_channels (L : Line) (table : Fin n → Callback Fn Ptr) :
    (IsrPc.fromLoop (L.channels n)).elim (IsrPc.code table) .ret = L.handler.code table := by
  rw [IsrPc.codeAt_fromLoop, Handler.code_eq]

/-! ## The channels and the handler -/

/-- The interrupt state, the channels whose block is under way, how many blocks of each channel have
completed and how often its callback has been called, and where the handler is. -/
structure Blocks (n : Nat) (Fn Ptr : Type) where
  irq : Irq n Fn Ptr
  busy : Finset (Fin n)
  completed : Fin n → Nat
  called : Fin n → Nat
  isr : Option (IsrPc n Fn)

/-- Who moves.  `dma_handler1` finds none of its channels on line 0, and changes nothing here. -/
inductive Blocks.Label (n : Nat) where
  | start (c : Fin n)
  | complete (c : Fin n)
  /-- The processor enters `dma_handler0`. -/
  | interrupt
  /-- The handler performs its next action. -/
  | handler

namespace IsrPc

/-- The control point that an action leads to; the handler may also have returned. -/
def entered (q : IsrPc n Fn ⊕ Unit) : Option (IsrPc n Fn) :=
  q.elim some fun _ => none

theorem elim_entered (table : Fin n → Callback Fn Ptr) (q : IsrPc n Fn ⊕ Unit) :
    (entered q).elim (.ret ()) (code table) = q.elim (code table) .ret := by
  cases q <;> rfl

/-- The channel whose callback a control point calls. -/
def calls : IsrPc n Fn → Option (Fin n)
  | .call _ c _ => some c
  | _ => none

/-- The channel whose callback has run, and which is not yet acknowledged. -/
def acknowledges : IsrPc n Fn → Option (Fin n)
  | .acknowledge c _ => some c
  | _ => none

@[simp] theorem calls_fromLoop (cs : List (Fin n)) :
    (entered (fromLoop cs : IsrPc n Fn ⊕ Unit)).bind calls = none := by
  cases cs <;> rfl

@[simp] theorem acknowledges_fromLoop (cs : List (Fin n)) :
    (entered (fromLoop cs : IsrPc n Fn ⊕ Unit)).bind acknowledges = none := by
  cases cs <;> rfl

section

variable {table : Fin n → Callback Fn Ptr} {c d : Fin n} {cs : List (Fin n)} {pending : Bool}

/-- Behind the status of `c`, no other channel is called, and this one only if it is pending. -/
theorem calls_fromStatus (h : (entered (fromStatus table c cs pending)).bind calls = some d) :
    d = c ∧ pending = true := by
  simp only [fromStatus] at h
  split at h
  · split at h
    · rename_i hpending
      exact ⟨(Option.some.inj h).symm, hpending⟩
    · rw [calls_fromLoop] at h
      cases h
  · rw [calls_fromLoop] at h
    cases h

@[simp] theorem acknowledges_fromStatus :
    (entered (fromStatus table c cs pending)).bind acknowledges = none := by
  simp only [fromStatus]
  split
  · split
    · rfl
    · exact acknowledges_fromLoop cs
  · exact acknowledges_fromLoop cs

end

end IsrPc

namespace Blocks

variable (table : Fin n → Callback Fn Ptr)

/-- The next block of a channel may start as soon as the callback has run for the last one. -/
def start (s : Blocks n Fn Ptr) (c : Fin n) : Option (Blocks n Fn Ptr) :=
  if c ∉ s.busy ∧ s.called c = s.completed c then
    some { s with busy := insert c s.busy }
  else
    none

/-- A block completes; if the channel's interrupt is enabled, its pending bit is set. -/
def complete (s : Blocks n Fn Ptr) (c : Fin n) : Option (Blocks n Fn Ptr) :=
  if c ∈ s.busy then
    let s := { s with
      busy := s.busy.erase c
      completed := Function.update s.completed c (s.completed c + 1) }
    match (table c).callback with
    | some _ =>
        some { s with irq := { s.irq with
          pending := Function.update s.irq.pending (lineOf c)
            (insert c (s.irq.pending (lineOf c))) } }
    | none => some s
  else
    none

def interrupt (s : Blocks n Fn Ptr) : Option (Blocks n Fn Ptr) :=
  match s.isr with
  | some _ => none
  | none =>
      if s.irq.pending .irq0 = ∅ then
        none
      else
        some { s with isr := IsrPc.entered (IsrPc.fromLoop (Line.irq0.channels n)) }

def handler (s : Blocks n Fn Ptr) : Option (Blocks n Fn Ptr) :=
  match s.isr with
  | none => none
  | some p =>
      ((isrAutomaton table).step (fun a irq => some (Irq.perform a irq)) p s.irq).map fun qs =>
        { s with
          irq := qs.2
          called := match p.calls with
            | some c => Function.update s.called c (s.called c + 1)
            | none => s.called
          isr := IsrPc.entered qs.1 }

def step : Label n → Blocks n Fn Ptr → Option (Blocks n Fn Ptr)
  | .start c, s => s.start c
  | .complete c, s => s.complete table c
  | .interrupt, s => s.interrupt
  | .handler, s => s.handler table

/-- No block has been started. -/
def boot : Blocks n Fn Ptr where
  irq := ⟨fun _ => ∅, []⟩
  busy := ∅
  completed _ := 0
  called _ := 0
  isr := none

/-! ## What each step does -/

section Steps

variable {table : Fin n → Callback Fn Ptr} {s t : Blocks n Fn Ptr} {c : Fin n}

theorem start_eq_some (h : s.start c = some t) :
    s.called c = s.completed c ∧ t = { s with busy := insert c s.busy } := by
  simp only [start] at h
  split at h
  · rename_i hguard
    cases h
    exact ⟨hguard.2, rfl⟩
  · cases h

/-- A completed block of another channel leaves the pending bits that it does not set. -/
theorem complete_eq_some (h : s.complete table c = some t) :
    c ∈ s.busy ∧ t.busy = s.busy.erase c ∧ t.called = s.called ∧ t.isr = s.isr ∧
      t.completed = Function.update s.completed c (s.completed c + 1) ∧
      ∀ L d, d ∈ t.irq.pending L ↔
        d ∈ s.irq.pending L ∨ (d = c ∧ L = lineOf c ∧ (table c).callback.isSome) := by
  simp only [complete] at h
  split at h
  · rename_i hbusy
    split at h
    · rename_i f hf
      cases h
      refine ⟨hbusy, rfl, rfl, rfl, rfl, fun L d => ?_⟩
      by_cases hL : L = lineOf c
      · subst hL
        simp [hf, or_comm]
      · simp [hL]
    · rename_i hf
      cases h
      refine ⟨hbusy, rfl, rfl, rfl, rfl, fun L d => ?_⟩
      simp [hf]
  · cases h

theorem interrupt_eq_some (h : s.interrupt = some t) :
    s.isr = none ∧
      t = { s with isr := IsrPc.entered (IsrPc.fromLoop (Line.irq0.channels n)) } := by
  simp only [interrupt] at h
  split at h
  · cases h
  · rename_i hisr
    split at h
    · cases h
    · cases h
      exact ⟨hisr, rfl⟩

/-- An interrupt starts `dma_handler0` at its beginning. -/
theorem interrupt_code (h : s.interrupt = some t) :
    t.isr.elim (.ret ()) (IsrPc.code table) = dma_handler0 table := by
  have hstart : t.isr = IsrPc.entered (IsrPc.fromLoop (Line.irq0.channels n)) := by
    rw [(interrupt_eq_some h).2]
  rw [hstart, IsrPc.elim_entered]
  exact codeAt_channels .irq0 table

/-- The handler performs the next action of its program, and then has the rest of it before it. -/
theorem handler_code {p : IsrPc n Fn} (hisr : s.isr = some p) (h : s.handler table = some t) :
    (p.code table).step (fun a irq => some (Irq.perform a irq)) s.irq =
      some (t.isr.elim (.ret ()) (IsrPc.code table), t.irq) := by
  simp only [handler, hisr] at h
  rcases Option.map_eq_some_iff.1 h with ⟨⟨q, irq⟩, hstep, rfl⟩
  rw [(isrAutomaton_unfolds table).step_eq, hstep]
  simp only [Option.map_some, IsrPc.elim_entered]

theorem handler_status {cs : List (Fin n)} (hisr : s.isr = some (.status c cs)) :
    s.handler table = some { s with
      isr := IsrPc.entered
        (IsrPc.fromStatus table c cs (decide (c ∈ s.irq.pending .irq0))) } := by
  simp only [handler, hisr]
  rfl

theorem handler_call {f : Fn} {cs : List (Fin n)} (hisr : s.isr = some (.call f c cs)) :
    s.handler table = some { s with
      irq := { s.irq with calls := s.irq.calls ++ [(f, (table c).param)] }
      called := Function.update s.called c (s.called c + 1)
      isr := some (.acknowledge c cs) } := by
  simp only [handler, hisr]
  rfl

theorem handler_acknowledge {cs : List (Fin n)} (hisr : s.isr = some (.acknowledge c cs)) :
    s.handler table = some { s with
      irq := { s.irq with
        pending := Function.update s.irq.pending .irq0 ((s.irq.pending .irq0).erase c) }
      isr := IsrPc.entered (IsrPc.fromLoop cs) } := by
  simp only [handler, hisr]
  rfl

theorem handler_of_none (hisr : s.isr = none) : s.handler table = none := by
  simp only [handler, hisr]

end Steps

/-! ## The state of one channel -/

/-- The channel whose callback the handler is about to call. -/
def calling (s : Blocks n Fn Ptr) : Option (Fin n) := s.isr.bind IsrPc.calls

/-- The channel which the handler is about to acknowledge. -/
def acknowledging (s : Blocks n Fn Ptr) : Option (Fin n) := s.isr.bind IsrPc.acknowledges

end Blocks

/-- Where a channel stands between its last completed block and the acknowledge. -/
inductive Phase where
  /-- All completed blocks have been answered. -/
  | idle
  /-- A block has completed, and its callback has not run. -/
  | due
  /-- The callback has run; the acknowledge is to come. -/
  | answered
  /-- Another block has completed before the acknowledge. -/
  | late
  /-- The acknowledge has cleared the bit of a block whose callback has not run. -/
  | swallowed
  deriving DecidableEq, Repr

/-- What a step does to a channel. -/
inductive Event where
  | completes
  | calls
  | acknowledges
  deriving DecidableEq, Repr

namespace Phase

/-- The completed blocks whose callback has not run. -/
def owed : Phase → Nat
  | .idle => 0
  | .due => 1
  | .answered => 0
  | .late => 1
  | .swallowed => 1

/-- The pending bit of the channel is set. -/
def pending : Phase → Bool
  | .idle => false
  | .due => true
  | .answered => true
  | .late => true
  | .swallowed => false

/-- The handler is between the callback and the acknowledge. -/
def acknowledges : Phase → Bool
  | .answered => true
  | .late => true
  | _ => false

/-- The one-place latch of a channel. -/
def next : Phase → Option Event → Phase
  | .idle, some .completes => .due
  | .due, some .calls => .answered
  | .answered, some .completes => .late
  | .answered, some .acknowledges => .idle
  | .late, some .acknowledges => .swallowed
  | p, _ => p

@[simp] theorem next_none (p : Phase) : p.next none = p := by
  cases p <;> rfl

/-- A completion is lost, or is going to be. -/
def lost : Phase → Bool
  | .late => true
  | .swallowed => true
  | _ => false

theorem lost_next {p : Phase} {e : Option Event} (h : p.lost = true) : (p.next e).lost = true := by
  cases p with
  | late =>
      cases e with
      | none => rfl
      | some e => cases e <;> rfl
  | swallowed => rfl
  | _ => cases h

/-- The only way to lose a completion. -/
theorem not_lost_next {p : Phase} {e : Option Event} (h : p.lost = false)
    (hok : ¬ (p = .answered ∧ e = some .completes)) : (p.next e).lost = false := by
  cases e with
  | none => rwa [next_none]
  | some e =>
      cases p with
      | idle => cases e <;> rfl
      | due => cases e <;> rfl
      | answered =>
          cases e with
          | completes => exact absurd ⟨rfl, rfl⟩ hok
          | calls => rfl
          | acknowledges => rfl
      | late => cases h
      | swallowed => cases h

end Phase

namespace Blocks

variable (table : Fin n → Callback Fn Ptr)

/-- What a step does to channel `c`. -/
def event (s : Blocks n Fn Ptr) (c : Fin n) : Label n → Option Event
  | .complete d => if d = c then some .completes else none
  | .handler =>
      if s.calling = some c then some .calls
      else if s.acknowledging = some c then some .acknowledges
      else none
  | _ => none

/-- The channel is in phase `p`. -/
structure In (s : Blocks n Fn Ptr) (c : Fin n) (p : Phase) : Prop where
  completed : s.completed c = s.called c + p.owed
  pending : c ∈ s.irq.pending .irq0 ↔ p.pending = true
  busy : c ∈ s.busy → p.owed = 0
  calling : s.calling = some c → p = .due
  acknowledging : s.acknowledging = some c ↔ p.acknowledges = true

end Blocks

/-- The channels that `dma_handler0` serves. -/
structure Served (table : Fin n → Callback Fn Ptr) (c : Fin n) : Prop where
  line : lineOf c = .irq0
  callback : (table c).callback.isSome

namespace Blocks

variable {table : Fin n → Callback Fn Ptr} {s t : Blocks n Fn Ptr} {c : Fin n} {p : Phase}

/-- A phase is settled by the counts, the pending bit and where the handler is. -/
theorem In.congr (h : s.In c p) (hcompleted : t.completed c = s.completed c)
    (hcalled : t.called c = s.called c)
    (hpending : c ∈ t.irq.pending .irq0 ↔ c ∈ s.irq.pending .irq0)
    (hbusy : c ∈ t.busy → p.owed = 0) (hcalling : t.calling = some c → p = .due)
    (hacknowledging : t.acknowledging = some c ↔ s.acknowledging = some c) : t.In c p where
  completed := by
    calc
      t.completed c = s.completed c := hcompleted
      _ = s.called c + p.owed := h.completed
      _ = t.called c + p.owed := by rw [hcalled]
  pending := hpending.trans h.pending
  busy := hbusy
  calling := hcalling
  acknowledging := hacknowledging.trans h.acknowledging

section Events

variable {d : Fin n} {cs : List (Fin n)}

theorem calling_of_isr {q : IsrPc n Fn} (h : s.isr = some q) : s.calling = q.calls := by
  rw [calling, h, Option.bind_some]

theorem acknowledging_of_isr {q : IsrPc n Fn} (h : s.isr = some q) :
    s.acknowledging = q.acknowledges := by
  rw [acknowledging, h, Option.bind_some]

theorem event_status (h : s.isr = some (.status d cs)) : s.event c .handler = none := by
  simp only [event, calling_of_isr h, acknowledging_of_isr h, IsrPc.calls, IsrPc.acknowledges]
  rfl

theorem event_call {f : Fn} (h : s.isr = some (.call f d cs)) :
    s.event c .handler = if d = c then some .calls else none := by
  simp [event, calling_of_isr h, acknowledging_of_isr h, IsrPc.calls, IsrPc.acknowledges]

theorem event_acknowledge (h : s.isr = some (.acknowledge d cs)) :
    s.event c .handler = if d = c then some .acknowledges else none := by
  simp [event, calling_of_isr h, acknowledging_of_isr h, IsrPc.calls, IsrPc.acknowledges]

end Events

theorem In.start {d : Fin n} (h : s.In c p) (hstep : s.start d = some t) : t.In c p := by
  rcases start_eq_some hstep with ⟨hcalled, rfl⟩
  refine h.congr rfl rfl Iff.rfl ?_ h.calling Iff.rfl
  intro hbusy
  rcases Finset.mem_insert.1 hbusy with rfl | hbusy
  · -- The block starts because the callback has run for all before it.
    have hcompleted := h.completed
    omega
  · exact h.busy hbusy

theorem In.complete {d : Fin n} (hc : Served table c) (h : s.In c p)
    (hstep : s.complete table d = some t) : t.In c (p.next (s.event c (.complete d))) := by
  rcases complete_eq_some hstep with ⟨hbusy, htbusy, hcalled, hisr, hcompleted, hpending⟩
  have hcalling : t.calling = s.calling := congrArg (·.bind IsrPc.calls) hisr
  have hack : t.acknowledging = s.acknowledging := congrArg (·.bind IsrPc.acknowledges) hisr
  by_cases hd : d = c
  · subst hd
    have howed := h.busy hbusy
    have hin : d ∈ t.irq.pending .irq0 :=
      (hpending .irq0 d).2 (Or.inr ⟨rfl, hc.line.symm, hc.callback⟩)
    have hnotbusy : d ∉ t.busy := by
      rw [htbusy]
      exact Finset.notMem_erase d s.busy
    have hcount : t.completed d = t.called d + 1 := by
      calc
        t.completed d = s.completed d + 1 := by rw [hcompleted, Function.update_self]
        _ = s.called d + 1 := by rw [h.completed, howed]
        _ = t.called d + 1 := by rw [hcalled]
    simp only [event, if_true]
    cases p with
    | idle =>
        refine ⟨hcount, ⟨fun _ => rfl, fun _ => hin⟩, fun hb => absurd hb hnotbusy, ?_, ?_⟩
        · exact fun _ => rfl
        · rw [hack]
          exact h.acknowledging
    | answered =>
        refine ⟨hcount, ⟨fun _ => rfl, fun _ => hin⟩, fun hb => absurd hb hnotbusy, ?_, ?_⟩
        · rw [hcalling]
          intro hcall
          cases h.calling hcall
        · rw [hack]
          exact h.acknowledging
    -- A block that is owed a callback keeps its channel from starting another one.
    | due => cases howed
    | late => cases howed
    | swallowed => cases howed
  · have hne : c ≠ d := fun hcd => hd hcd.symm
    -- Another channel completes; the bits and the counts of `c` stay.
    have hevent : p.next (s.event c (.complete d)) = p := by
      simp only [event, if_neg hd]
      cases p <;> rfl
    rw [hevent]
    refine h.congr ?_ (congrFun hcalled c) ?_ ?_ ?_ ?_
    · rw [hcompleted, Function.update_of_ne hne]
    · rw [hpending]
      simp [hne]
    · rw [htbusy]
      exact fun hb => h.busy (Finset.mem_of_mem_erase hb)
    · rw [hcalling]
      exact h.calling
    · rw [hack]

theorem In.interrupt (h : s.In c p) (hstep : s.interrupt = some t) : t.In c p := by
  rcases interrupt_eq_some hstep with ⟨hisr, rfl⟩
  refine h.congr rfl rfl Iff.rfl h.busy ?_ ?_
  · simp [Blocks.calling]
  · simp [Blocks.acknowledging, hisr]

section Handler

variable {d : Fin n} {cs : List (Fin n)}

theorem In.handler_status (h : s.In c p) (hisr : s.isr = some (.status d cs))
    (hstep : s.handler table = some t) : t.In c (p.next (s.event c .handler)) := by
  rw [Blocks.handler_status hisr] at hstep
  cases hstep
  have hnot : ¬ p.acknowledges = true := by
    intro hack
    have hat := h.acknowledging.2 hack
    rw [acknowledging_of_isr hisr] at hat
    cases hat
  rw [event_status hisr, Phase.next_none]
  refine h.congr rfl rfl Iff.rfl h.busy ?_ ?_
  · intro hcall
    rcases IsrPc.calls_fromStatus hcall with ⟨rfl, hpending⟩
    -- Pending, and not between callback and acknowledge.
    have hset := h.pending.1 (of_decide_eq_true hpending)
    cases p with
    | due => rfl
    | idle => cases hset
    | swallowed => cases hset
    | answered => exact absurd rfl hnot
    | late => exact absurd rfl hnot
  · simp [Blocks.acknowledging, hisr, IsrPc.acknowledges]

theorem In.handler_call {f : Fn} (h : s.In c p) (hisr : s.isr = some (.call f d cs))
    (hstep : s.handler table = some t) : t.In c (p.next (s.event c .handler)) := by
  rw [Blocks.handler_call hisr] at hstep
  cases hstep
  rw [event_call hisr]
  by_cases hd : d = c
  · subst hd
    -- The callback of `c` itself: what was due is answered.
    have hdue := h.calling (calling_of_isr hisr)
    subst hdue
    rw [if_pos rfl]
    exact
      { completed := by
          simp only [Function.update_self, Phase.next, Phase.owed, h.completed]
        pending := h.pending
        busy := fun _ => rfl
        calling := by rintro ⟨⟩
        acknowledging := ⟨fun _ => rfl, fun _ => rfl⟩ }
  · rw [if_neg hd, Phase.next_none]
    refine h.congr rfl ?_ Iff.rfl h.busy (by rintro ⟨⟩) ?_
    · exact Function.update_of_ne (fun hcd => hd hcd.symm) _ _
    · simp [Blocks.acknowledging, hisr, IsrPc.acknowledges, hd]

theorem In.handler_acknowledge (h : s.In c p) (hisr : s.isr = some (.acknowledge d cs))
    (hstep : s.handler table = some t) : t.In c (p.next (s.event c .handler)) := by
  rw [Blocks.handler_acknowledge hisr] at hstep
  cases hstep
  rw [event_acknowledge hisr]
  by_cases hd : d = c
  · subst hd
    -- The bit of `c` is cleared, whether or not it stands for a block whose callback has run.
    have hack := h.acknowledging.1 (acknowledging_of_isr hisr)
    have hnext : (p.next (some .acknowledges)).owed = p.owed ∧
        (p.next (some .acknowledges)).pending = false ∧
          (p.next (some .acknowledges)).acknowledges = false := by
      cases p with
      | answered => exact ⟨rfl, rfl, rfl⟩
      | late => exact ⟨rfl, rfl, rfl⟩
      | _ => cases hack
    rw [if_pos rfl]
    rcases hnext with ⟨howed, hpending, hacknowledges⟩
    exact
      { completed := by rw [howed, h.completed]
        pending := by simp [hpending]
        busy := by rw [howed]; exact h.busy
        calling := by simp [Blocks.calling]
        acknowledging := by simp [Blocks.acknowledging, hacknowledges] }
  · rw [if_neg hd, Phase.next_none]
    have hne : c ≠ d := fun hcd => hd hcd.symm
    refine h.congr rfl rfl ?_ h.busy ?_ ?_
    · simp [hne]
    · simp [Blocks.calling]
    · simp [Blocks.acknowledging, hisr, IsrPc.acknowledges, hd]

theorem In.handler (h : s.In c p) (hstep : s.handler table = some t) :
    t.In c (p.next (s.event c .handler)) := by
  cases hisr : s.isr with
  | none =>
      rw [handler_of_none hisr] at hstep
      cases hstep
  | some q =>
      cases q with
      | status d cs => exact h.handler_status hisr hstep
      | call f d cs => exact h.handler_call hisr hstep
      | acknowledge d cs => exact h.handler_acknowledge hisr hstep

end Handler

/-- Every step moves a channel of `dma_handler0` as its latch says. -/
theorem In.step {l : Label n} (hc : Served table c) (h : s.In c p)
    (hstep : Blocks.step table l s = some t) : t.In c (p.next (s.event c l)) := by
  cases l with
  | start d =>
      rw [show s.event c (.start d) = none from rfl, Phase.next_none]
      exact h.start hstep
  | complete d => exact h.complete hc hstep
  | interrupt =>
      rw [show s.event c .interrupt = none from rfl, Phase.next_none]
      exact h.interrupt hstep
  | handler => exact h.handler hstep

theorem In.boot (c : Fin n) : (Blocks.boot : Blocks n Fn Ptr).In c .idle where
  completed := rfl
  pending := by simp [Blocks.boot, Phase.pending]
  busy _ := rfl
  calling := by rintro ⟨⟩
  acknowledging := by simp [Blocks.boot, Blocks.acknowledging, Phase.acknowledges]

/-! ## Runs -/

variable (table)

/-- No block completes between the callback of its channel and the acknowledge. -/
def CompletesApart (s : Blocks n Fn Ptr) : Label n → Prop
  | .complete c => Served table c → s.acknowledging ≠ some c
  | _ => True

/-- A channel with no block under way and no pending bit: the callback has run once for each block
that has completed. -/
def Answers (s : Blocks n Fn Ptr) : Prop :=
  ∀ c, Served table c → c ∉ s.busy → c ∉ s.irq.pending .irq0 → s.called c = s.completed c

/-- No completion is lost. -/
def Lossless (s : Blocks n Fn Ptr) : Prop :=
  ∀ c, Served table c → ∃ p, s.In c p ∧ p.lost = false

variable {table}

theorem Lossless.answers (h : s.Lossless table) : s.Answers table := by
  intro c hc _ hpending
  rcases h c hc with ⟨p, hp, hlost⟩
  have hclear : ¬ p.pending = true := fun hset => hpending (hp.pending.2 hset)
  -- With the bit clear and nothing lost, the channel is idle.
  cases p with
  | idle => exact hp.completed.symm
  | due => exact absurd rfl hclear
  | answered => exact absurd rfl hclear
  | late => cases hlost
  | swallowed => cases hlost

theorem Lossless.step {l : Label n} (h : s.Lossless table) (hok : s.CompletesApart table l)
    (hstep : Blocks.step table l s = some t) : t.Lossless table := by
  intro c hc
  rcases h c hc with ⟨p, hp, hlost⟩
  refine ⟨_, hp.step hc hstep, Phase.not_lost_next hlost ?_⟩
  rintro ⟨rfl, hevent⟩
  have hack : s.acknowledging = some c := hp.acknowledging.2 rfl
  cases l with
  | complete d =>
      by_cases hd : d = c
      · subst hd
        -- The only step that could lose a block of `c` is a completion while `c` is answered.
        exact hok hc hack
      · rw [event, if_neg hd] at hevent
        cases hevent
  | handler =>
      rw [event] at hevent
      split at hevent <;> cases hevent
  | start d => cases hevent
  | interrupt => cases hevent

theorem Lossless.boot : (Blocks.boot : Blocks n Fn Ptr).Lossless table :=
  fun c _ => ⟨.idle, In.boot c, rfl⟩

/-- A lost completion stays lost. -/
theorem In.run {ls : List (Label n)} (hc : Served table c) (h : s.In c p) (hlost : p.lost = true)
    (hrun : Run (Blocks.step table) Free s ls t) : ∃ q, t.In c q ∧ q.lost = true := by
  refine hrun.invariant (I := fun u => ∃ q, u.In c q ∧ q.lost = true) ?_ ⟨p, h, hlost⟩
  rintro u l v ⟨q, hq, hlost⟩ _ hstep
  exact ⟨_, hq.step hc hstep, Phase.lost_next hlost⟩

theorem In.not_answers (hc : Served table c) (h : s.In c .swallowed) : ¬ s.Answers table := by
  intro hanswers
  have hbusy : c ∉ s.busy := fun hb => Nat.one_ne_zero (h.busy hb)
  have hpending : c ∉ s.irq.pending .irq0 := fun hp => Bool.false_ne_true (h.pending.1 hp)
  have hcount := hanswers c hc hbusy hpending
  have hcompleted : s.completed c = s.called c + 1 := h.completed
  omega

/-- The acknowledge that is to come is the one that swallows. -/
theorem In.exists_swallowed (hc : Served table c) (h : s.In c .late) :
    ∃ t, s.handler table = some t ∧ t.In c .swallowed := by
  have hack : s.isr.bind IsrPc.acknowledges = some c := h.acknowledging.2 rfl
  rcases Option.bind_eq_some_iff.1 hack with ⟨q, hisr, hq⟩
  cases q with
  | acknowledge d cs =>
      cases hq
      have hstep : s.handler table = some _ := Blocks.handler_acknowledge hisr
      have ht := h.step (l := .handler) hc hstep
      rw [event_acknowledge hisr, if_pos rfl] at ht
      exact ⟨_, hstep, ht⟩
  | status d cs => cases hq
  | call f d cs => cases hq

/-- All is answered, now and however far the handler goes on by itself. -/
def SettlesAnswered (table : Fin n → Callback Fn Ptr) (s : Blocks n Fn Ptr) : Prop :=
  ∀ k t, Run (Blocks.step table) Free s (List.replicate k .handler) t → t.Answers table

theorem Lossless.settlesAnswered (h : s.Lossless table) : s.SettlesAnswered table := by
  intro k
  induction k generalizing s with
  | zero =>
      intro t hrun
      cases hrun
      exact h.answers
  | succ k ih =>
      intro t hrun
      rw [List.replicate_succ] at hrun
      cases hrun with
      | cons _ hstep hrest =>
          have hok : s.CompletesApart table .handler := trivial
          exact ih (h.step hok hstep) t hrest

theorem In.not_settlesAnswered (hc : Served table c) (h : s.In c p) (hlost : p.lost = true) :
    ¬ s.SettlesAnswered table := by
  intro hsettles
  cases p with
  | late =>
      -- A late block is swallowed by the next step of the handler.
      rcases h.exists_swallowed hc with ⟨t, hstep, ht⟩
      exact ht.not_answers hc (hsettles 1 t (.single trivial hstep))
  | swallowed => exact h.not_answers hc (hsettles 0 s (.nil s))
  | _ => cases hlost

/-- A block of a channel that is about to be acknowledged is lost. -/
theorem Lossless.completesApart {l : Label n} {ls : List (Label n)} {u : Blocks n Fn Ptr}
    (h : s.Lossless table) (hstep : Blocks.step table l s = some t)
    (hrun : Run (Blocks.step table) Free t ls u) (hu : u.SettlesAnswered table) :
    s.CompletesApart table l := by
  cases l with
  | complete c =>
      intro hc hack
      rcases h c hc with ⟨p, hp, hlost⟩
      have hanswered : p = .answered := by
        have hacks := hp.acknowledging.1 hack
        cases p with
        | answered => rfl
        | late => cases hlost
        | _ => cases hacks
      subst hanswered
      have ht := hp.step hc hstep
      rw [event, if_pos rfl] at ht
      rcases ht.run hc rfl hrun with ⟨q, hq, hq'⟩
      exact hq.not_settlesAnswered hc hq' hu
  | start c => trivial
  | interrupt => trivial
  | handler => trivial

/-- The runs that leave every block answered, wherever the handler is, are those in which no block
completes between the callback of its channel and the acknowledge. -/
theorem settlesAnswered_iff_completesApart {ls : List (Label n)} :
    (Run (Blocks.step table) Free Blocks.boot ls t ∧ t.SettlesAnswered table) ↔
      Run (Blocks.step table) (CompletesApart table) Blocks.boot ls t := by
  constructor
  · rintro ⟨hrun, ht⟩
    have hboot : (Blocks.boot : Blocks n Fn Ptr).Lossless table := Lossless.boot
    -- Induction along the run; a completion at the wrong moment would still be lost at its end.
    generalize (Blocks.boot : Blocks n Fn Ptr) = s at hrun hboot ⊢
    induction hrun with
    | nil s => exact .nil s
    | cons _ hstep hrest ih =>
        have hok := hboot.completesApart hstep hrest ht
        exact .cons hok hstep (ih ht (hboot.step hok hstep))
  · intro hrun
    have ht : t.Lossless table :=
      hrun.invariant (fun s l u hs hok hstep => hs.step hok hstep) Lossless.boot
    exact ⟨hrun.mono fun _ _ _ => trivial, ht.settlesAnswered⟩

/-! ## A block that completes before the acknowledge -/

/-- Once all blocks have completed and no channel is pending, every served channel's callback has
run once for each of its blocks. -/
def AllAnswered (table : Fin n → Callback Fn Ptr) (s : Blocks n Fn Ptr) : Prop :=
  s.busy = ∅ → (∀ L, s.irq.pending L = ∅) → ∀ c, Served table c → s.called c = s.completed c

theorem Answers.allAnswered (h : s.Answers table) : s.AllAnswered table := by
  intro hbusy hpending c hc
  refine h c hc ?_ ?_
  · rw [hbusy]
    exact Finset.notMem_empty c
  · rw [hpending]
    exact Finset.notMem_empty c

/-- The callback of channel `c` runs, a second block starts and completes, and the acknowledge for
the first clears the pending bit of the second. -/
def lateAcknowledge (c : Fin n) : List (Label n) :=
  [.start c, .complete c, .interrupt, .handler, .handler, .start c, .complete c, .handler]

theorem not_allAnswered : ¬ ∀ (table : Fin 12 → Callback Unit Unit) (ls : List (Label 12))
    (t : Blocks 12 Unit Unit),
    Run (Blocks.step table) Free Blocks.boot ls t → t.AllAnswered table := by
  intro hclaim
  rcases exists_run_of_exec (Blocks.step fun _ => ⟨some (), none⟩) Free
    (Blocks.boot : Blocks 12 Unit Unit) (lateAcknowledge 0)
    (fun t => t.busy = ∅ ∧ t.irq.pending .irq0 = ∅ ∧ t.irq.pending .irq1 = ∅ ∧
      t.called 0 ≠ t.completed 0) (by decide +kernel) with ⟨t, hrun, hP⟩
  rcases of_decide_eq_true hP with ⟨hbusy, h0, h1, hcount⟩
  -- No block is under way and no bit is set, but one block has had no callback.
  refine hcount (hclaim _ _ t hrun hbusy (fun L => ?_) 0 ⟨rfl, rfl⟩)
  cases L
  · exact h0
  · exact h1

end Blocks

end Dma
end PicoCppSdk
