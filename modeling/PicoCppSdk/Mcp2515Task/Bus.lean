import PicoCppSdk.Foundation.Broadcast
import PicoCppSdk.Mcp2515Task.Order
import PicoCppSdk.Mcp2515Task.Rest
import PicoCppSdk.Mcp2515Task.Transmit

/-!
# Bus — the program on several nodes of one CAN bus

Each node is a controller with its tasks, as in `System`.  The bus carries one frame at a time: the
transmission completes at the node that has requested it, and the frame arrives at the others that
accept it.  Which request is next is left open, and so are the register bits that the frame does not
determine.  `takes` stands for the acceptance filters.

`log` is a history of the wire, oldest first.  No step reads it.
-/

namespace PicoCppSdk
namespace Mcp2515Task

open Atomic Mcp2515 Transition

variable {ι : Type} [DecidableEq ι] {s t : Sys}

/-! ## The bus -/

structure Bus (ι : Type) where
  node : ι → Sys
  log : List (ι × CanFrame)

/-- A step of the node alone. -/
def Label.apart : Label → Bool
  | .arrive _ => false
  | .complete => false
  | _ => true

inductive BusLabel (ι : Type) where
  | node (i : ι) (l : Label)
  | frame (i : ι) (old : ι → RxImage)

/-- The conditions on the steps of a node under which its frames keep their order. -/
def InStep (s : Sys) (l : Label) : Prop :=
  (NoErrors s l ∧ OwnTokens s l) ∧ Spaced s l ∧ s.KeepsOrder l

instance decidableInStep (s : Sys) (l : Label) : Decidable (InStep s l) :=
  inferInstanceAs (Decidable ((_ ∧ _) ∧ _ ∧ _))

namespace Bus

/-- The frame whose transmission node `i` has requested. -/
def frame (b : Bus ι) (i : ι) : CanFrame :=
  txFrame (b.node i).regs

section

variable (takes : ι → CanFrame → Bool)

/-- The other nodes, when the frame of node `i` is on the wire. -/
def hear (b : Bus ι) (i : ι) (old : ι → RxImage) (j : ι) : Sys :=
  if takes j (b.frame i) = true then
    (b.node j).latch ((b.node j).arrive ((b.frame i).image (old j)))
  else
    b.node j

def step : BusLabel ι → Bus ι → Option (Bus ι)
  | .node i l, b =>
      if l.apart then
        (Sys.step l (b.node i)).map fun t => { b with node := Function.update b.node i t }
      else
        none
  | .frame i old, b =>
      (Sys.step .complete (b.node i)).map fun t =>
        { node := Function.update (b.hear takes i old) i t, log := b.log ++ [(i, b.frame i)] }

/-- The conditions of all nodes that a step concerns. -/
def InStep (b : Bus ι) : BusLabel ι → Prop
  | .node i l => Mcp2515Task.InStep (b.node i) l
  | .frame i old =>
      ∀ j, j ≠ i → takes j (b.frame i) = true →
        Mcp2515Task.InStep (b.node j) (.arrive ((b.frame i).image (old j)))

instance decidableInStep [Fintype ι] (b : Bus ι) :
    (l : BusLabel ι) → Decidable (b.InStep takes l)
  | .node i l => inferInstanceAs (Decidable (Mcp2515Task.InStep (b.node i) l))
  | .frame i old =>
      inferInstanceAs (Decidable (∀ j, j ≠ i → takes j (b.frame i) = true →
        Mcp2515Task.InStep (b.node j) (.arrive ((b.frame i).image (old j)))))

end

/-- Every node after `initialInTask`. -/
def boot (r : ι → Regs) : Bus ι :=
  ⟨fun i => Sys.boot (r i), []⟩

end Bus

/-! ## What a step of the bus does to a node -/

/-- A step of a node alone adds at most one event, and it is not about the wire. -/
theorem Sys.trace_of_apart {l : Label} (hl : l.apart = true) (hstep : Sys.step l s = some t) :
    t.trace = s.trace ∨ (∃ n x now, t.trace = .returned n x now :: s.trace) ∨
      ∃ c, t.trace = .submitted c :: s.trace := by
  rcases Option.map_eq_some_iff.1 hstep with ⟨u, hmove, rfl⟩
  cases l with
  | canService => exact Or.inl (canMove_of_canStep hmove).frame.2.2.1
  | reader =>
      rcases (readerMove_of_readerStep hmove).frame.2.2.2 with htrace | htrace
      · exact Or.inl htrace
      · exact Or.inr (Or.inl htrace)
  | sender => exact Or.inl (senderMove_of_senderStep hmove).frame.2.2.2.2
  | receive buf =>
      rcases eq_of_receive hmove with ⟨-, rfl⟩
      exact Or.inl rfl
  | submit c =>
      rcases eq_of_submit hmove with ⟨-, rfl⟩
      exact Or.inr (Or.inr ⟨c, rfl⟩)
  | irqHandler now =>
      rcases eq_of_irqHandler hmove with ⟨-, rfl⟩
      exact Or.inl rfl
  | arrive img => cases hl
  | complete => cases hl
  | raise flags eflg =>
      cases hmove
      exact Or.inl rfl

namespace Bus

variable {takes : ι → CanFrame → Bool} {b c : Bus ι}

theorem eq_of_node {i : ι} {l : Label} (h : b.step takes (.node i l) = some c) :
    l.apart = true ∧ ∃ t, Sys.step l (b.node i) = some t ∧
      c = { b with node := Function.update b.node i t } := by
  cases hl : l.apart with
  | false => simp [step, hl] at h
  | true =>
      simp only [step, hl, if_true] at h
      rcases Option.map_eq_some_iff.1 h with ⟨t, ht, rfl⟩
      exact ⟨rfl, t, ht, rfl⟩

theorem eq_of_frame {i : ι} {old : ι → RxImage} (h : b.step takes (.frame i old) = some c) :
    ∃ t, Sys.step .complete (b.node i) = some t ∧
      c = { node := Function.update (b.hear takes i old) i t, log := b.log ++ [(i, b.frame i)] } := by
  rcases Option.map_eq_some_iff.1 h with ⟨t, ht, rfl⟩
  exact ⟨t, ht, rfl⟩

/-- A step of the bus is no step or one step of each node. -/
theorem step_node {l : BusLabel ι} (hok : b.InStep takes l) (h : b.step takes l = some c) (j : ι) :
    c.node j = b.node j ∨
      ∃ l', Mcp2515Task.InStep (b.node j) l' ∧ Sys.step l' (b.node j) = some (c.node j) := by
  cases l with
  | node i l =>
      rcases eq_of_node h with ⟨-, t, ht, rfl⟩
      by_cases hj : j = i
      · subst hj
        refine Or.inr ⟨l, hok, ?_⟩
        simp only [Function.update_self]
        exact ht
      · exact Or.inl (Function.update_of_ne hj _ _)
  | frame i old =>
      rcases eq_of_frame h with ⟨t, ht, rfl⟩
      by_cases hj : j = i
      · subst hj
        refine Or.inr ⟨.complete, ⟨⟨trivial, trivial⟩, trivial, trivial, nofun⟩, ?_⟩
        simp only [Function.update_self]
        exact ht
      · simp only [Function.update_of_ne hj, hear]
        split
        · rename_i htakes
          exact Or.inr ⟨_, hok j hj htakes, rfl⟩
        · exact Or.inl rfl

/-- What the steps of a node keep holds at every node. -/
theorem invariant_node {P : Sys → Prop}
    (hstep : ∀ s l t, P s → Mcp2515Task.InStep s l → Sys.step l s = some t → P t)
    {ls : List (BusLabel ι)} (hrun : Run (step takes) (InStep takes) b ls c)
    (hb : ∀ j, P (b.node j)) (j : ι) : P (c.node j) := by
  refine hrun.invariant (I := fun b => ∀ j, P (b.node j)) ?_ hb j
  intro b l c hP hok hl j
  rcases step_node hok hl j with hsame | ⟨l', hok', hl'⟩
  · exact hsame ▸ hP j
  · exact hstep _ _ _ (hP j) hok' hl'

end Bus

/-! ## What a frame carries -/

/-- The frame as the caller of a read sees it, if it carries data. -/
def frameContent (f : CanFrame) : Content where
  canId := f.ident.setWidth 32
  len := f.dlc.setWidth 8
  data := f.data

/-- What the receivers are to see of a call, whose identifier has 29 bits. -/
def SendCall.content (c : SendCall) : Content where
  canId := (c.canId.setWidth 29).setWidth 32
  len := c.len
  data := (List.range c.len.toNat).map c.buf

theorem SendCall.frameContent_frame {c : SendCall} (hlen : c.len ≤ 8#8) :
    frameContent c.frame = c.content := by
  have hdlc : (c.len.setWidth 4).setWidth 8 = c.len := by
    have hle : c.len.toNat ≤ 8 := hlen
    apply BitVec.eq_of_toNat_eq
    rw [BitVec.toNat_setWidth, BitVec.toNat_setWidth]
    omega
  have hdata : c.frame.data = (List.range c.len.toNat).map c.buf :=
    CanFrame.ofCall_data c.canId c.buf c.len hlen
  simp only [frameContent, SendCall.content, Content.mk.injEq]
  exact ⟨rfl, hdlc, hdata⟩

/-- A receive buffer holds the content of a data frame, whatever was in it before. -/
theorem content_image {f : CanFrame} (hremote : f.remote = false) (old : RxImage) :
    content (f.image old) = frameContent f := by
  have hlen : f.data.length = min f.dlc.toNat 8 := by
    rw [f.data_length, hremote]
    rfl
  have hdlc : min (f.dlc.setWidth 8).toNat 8 = f.data.length := by
    have hlt := f.dlc.isLt
    rw [hlen, BitVec.toNat_setWidth]
    omega
  simp only [content, frameContent, Content.mk.injEq]
  refine ⟨decodeId_image f old, image_dlc f old, ?_⟩
  rw [image_dlc, hdlc]
  apply List.ext_getElem
  · simp
  · intro i hi hi'
    simp only [List.getElem_map, List.getElem_range]
    rw [image_byte_data f old (by omega)]
    simp [List.getD_eq_getElem?_getD, hi']

theorem Sys.remote_of_mem_submitted {f : CanFrame} (h : f ∈ s.submitted) : f.remote = false := by
  rcases List.mem_filterMap.1 (List.mem_reverse.1 h) with ⟨e, -, he⟩
  cases e with
  | submitted c =>
      cases he
      rfl
  | _ => cases he

/-! ## The bus as a broadcast -/

/-- The invariants of a node. -/
structure Sys.NodeInv (s : Sys) : Prop where
  tx : s.TxInv
  rx : ∃ mask, s.OrderInv mask

theorem Sys.NodeInv.step {l : Label} (h : s.NodeInv) (hok : InStep s l)
    (hstep : Sys.step l s = some t) : t.NodeInv := by
  rcases h.rx with ⟨mask, hrx⟩
  exact ⟨h.tx.step hok.1.1 hok.1.2 hstep, _, hrx.step hok.2.1 hok.2.2 hstep⟩

theorem Sys.NodeInv.boot (r : Regs) : (Sys.boot r).NodeInv :=
  ⟨.boot r, _, .boot r⟩

/-- What the calls have returned, oldest first. -/
def Sys.contents (s : Sys) : List Content :=
  (returned s.trace).map Prod.snd

theorem Sys.NodeInv.contents (h : s.NodeInv) :
    s.contents <+: (loaded s.trace).map Prod.snd := by
  rcases h.rx with ⟨mask, hrx⟩
  exact hrx.inQueue.queue.inOrder.map _

namespace Bus

open Broadcast (issued due addressed)

variable {takes : ι → CanFrame → Bool} {b c : Bus ι} {i : ι}

/-- The log is what the nodes have sent, and what they have taken in. -/
structure Inv (takes : ι → CanFrame → Bool) (b : Bus ι) : Prop where
  node : ∀ i, (b.node i).NodeInv
  sent : ∀ i, (b.node i).transmitted = issued i b.log
  came : ∀ j, (loaded (b.node j).trace).map Prod.snd =
    (due takes j b.log).map fun p => frameContent p.2

/-- The broadcast that the bus shows: a message is got when a call has returned it. -/
def view (takes : ι → CanFrame → Bool) (b : Bus ι) : Broadcast.State ι CanFrame where
  sent i := (b.node i).submitted
  log := b.log
  got j := (due takes j b.log).take (b.node j).contents.length

theorem Inv.length_le (h : b.Inv takes) (j : ι) :
    (b.node j).contents.length ≤ (due takes j b.log).length := by
  have hle := (h.node j).contents.length_le
  rw [h.came j, List.length_map] at hle
  exact hle

/-- The calls return what the broadcast delivers. -/
theorem Inv.contents (h : b.Inv takes) (j : ι) :
    (b.node j).contents = ((b.view takes).got j).map fun p => frameContent p.2 := by
  have hpre := (h.node j).contents
  rw [h.came j] at hpre
  rw [view, List.map_take]
  exact List.prefix_iff_eq_take.1 hpre

/-- One node changes, and the wire does not. -/
theorem view_update (b : Bus ι) (i : ι) (t : Sys) :
    view takes { b with node := Function.update b.node i t } =
      { sent := Function.update (b.view takes).sent i t.submitted
        log := b.log
        got := Function.update (b.view takes).got i ((due takes i b.log).take t.contents.length) } := by
  simp only [view, Broadcast.State.mk.injEq, true_and]
  refine ⟨?_, ?_⟩
  · funext j
    by_cases hj : j = i
    · subst hj
      simp only [Function.update_self]
    · simp only [Function.update_of_ne hj]
  · funext j
    by_cases hj : j = i
    · subst hj
      simp only [Function.update_self]
    · simp only [Function.update_of_ne hj]

theorem Inv.update (h : b.Inv takes) (ht : t.NodeInv)
    (hsent : t.transmitted = (b.node i).transmitted)
    (hcame : loaded t.trace = loaded (b.node i).trace) :
    Inv takes { b with node := Function.update b.node i t } := by
  refine ⟨?_, ?_, ?_⟩
  · intro j
    by_cases hj : j = i
    · subst hj
      simpa only [Function.update_self] using ht
    · simpa only [Function.update_of_ne hj] using h.node j
  · intro j
    by_cases hj : j = i
    · subst hj
      simpa only [Function.update_self, hsent] using h.sent j
    · simpa only [Function.update_of_ne hj] using h.sent j
  · intro j
    by_cases hj : j = i
    · subst hj
      simpa only [Function.update_self, hcame] using h.came j
    · simpa only [Function.update_of_ne hj] using h.came j

/-- A step of a node alone is a message handed in, one delivered, or nothing. -/
theorem Inv.of_node (h : b.Inv takes) {l : Label}
    (hok : Mcp2515Task.InStep (b.node i) l) (hl : l.apart = true)
    (hstep : Sys.step l (b.node i) = some t) :
    Inv takes { b with node := Function.update b.node i t } ∧
      Relation.ReflGen (Broadcast.Step takes) (b.view takes)
        (view takes { b with node := Function.update b.node i t }) := by
  have ht := (h.node i).step hok hstep
  rcases Sys.trace_of_apart hl hstep with htrace | ⟨n, x, now, htrace⟩ | ⟨m, htrace⟩
  · have hsubmitted : t.submitted = (b.node i).submitted := by
      simp only [Sys.submitted, htrace]
    have hcontents : t.contents = (b.node i).contents := by
      simp only [Sys.contents, htrace]
    refine ⟨h.update ht (by simp only [Sys.transmitted, htrace]) (by rw [htrace]), ?_⟩
    -- Nothing that the broadcast shows has changed.
    have hview : view takes { b with node := Function.update b.node i t } = b.view takes := by
      rw [view_update, hsubmitted, hcontents]
      show Broadcast.State.mk (Function.update (b.view takes).sent i ((b.view takes).sent i)) _
        (Function.update (b.view takes).got i ((b.view takes).got i)) = _
      rw [Function.update_eq_self, Function.update_eq_self]
      rfl
    exact hview ▸ .refl
  · have hsubmitted : t.submitted = (b.node i).submitted := by
      simp only [Sys.submitted, htrace]
      rfl
    have hcame : loaded t.trace = loaded (b.node i).trace := by
      rw [htrace]
      rfl
    have hcontents : t.contents.length = (b.node i).contents.length + 1 := by
      simp [Sys.contents, htrace, returned]
    have hinv := h.update ht (by simp only [Sys.transmitted, htrace]; rfl) hcame
    refine ⟨hinv, .single ?_⟩
    -- The frame that is returned is the next that is due: not all of them were returned before.
    have hlt : (b.node i).contents.length < (due takes i b.log).length := by
      have hle := hinv.length_le i
      simp only [Function.update_self, hcontents] at hle
      exact hle
    rw [view_update, hsubmitted, hcontents, List.take_add_one, List.getElem?_eq_getElem hlt]
    have hdeliver := @Broadcast.Step.deliver _ _ _ takes (b.view takes) i
      ((due takes i b.log)[(b.node i).contents.length])
      ((due takes i b.log).drop ((b.node i).contents.length + 1)) ?_
    · have hsent : Function.update (b.view takes).sent i (b.node i).submitted =
          (b.view takes).sent := Function.update_eq_self i _
      rw [hsent]
      exact hdeliver
    · rw [List.cons_getElem_drop_succ]
      exact (List.take_append_drop _ _).symm
  · have hsubmitted : t.submitted = (b.node i).submitted ++ [m.frame] :=
      Sys.submitted_of_trace htrace
    have hcontents : t.contents = (b.node i).contents := by
      simp only [Sys.contents, htrace, returned]
    have hcame : loaded t.trace = loaded (b.node i).trace := by
      rw [htrace]
      rfl
    refine ⟨h.update ht (by simp only [Sys.transmitted, htrace]; rfl) hcame, .single ?_⟩
    have hgot : Function.update (b.view takes).got i
        ((due takes i b.log).take (b.node i).contents.length) = (b.view takes).got :=
      Function.update_eq_self i _
    rw [view_update, hsubmitted, hcontents, hgot]
    exact .send i m.frame

/-- What the frame on the wire changes at node `j`: it comes to those that it is addressed to. -/
structure Passed (takes : ι → CanFrame → Bool) (b c : Bus ι) (i j : ι) : Prop where
  node : (c.node j).NodeInv
  submitted : (c.node j).submitted = (b.node j).submitted
  transmitted : (c.node j).transmitted = (b.node j).transmitted ++ issued j [(i, b.frame i)]
  contents : (c.node j).contents = (b.node j).contents
  came : (loaded (c.node j).trace).map Prod.snd = (loaded (b.node j).trace).map Prod.snd ++
    (due takes j [(i, b.frame i)]).map fun p => frameContent p.2

/-- The sender, when its transmission completes. -/
theorem Passed.sender (h : (b.node i).NodeInv)
    (hstep : Sys.step .complete (b.node i) = some (c.node i)) : Passed takes b c i i := by
  have ht := h.step (l := .complete) ⟨⟨trivial, trivial⟩, trivial, trivial, nofun⟩ hstep
  have htrace : (c.node i).trace = .transmitted (b.frame i) :: (b.node i).trace := by
    rcases Option.map_eq_some_iff.1 hstep with ⟨u, hmove, hu⟩
    rw [← hu]
    exact (Sys.completed_of_complete hmove).trace
  have hself : addressed takes i (i, b.frame i) = false := by
    simp [addressed]
  refine ⟨ht, ?_, ?_, ?_, ?_⟩
  · simp only [Sys.submitted, htrace]
    rfl
  · rw [Sys.transmitted_of_trace htrace, Broadcast.issued_self]
  · simp only [Sys.contents, htrace, returned]
  · rw [htrace, Broadcast.due_of_not_addressed hself]
    simp [loaded]

/-- Another node, whose filters may accept the frame. -/
theorem Passed.other {j : ι} (h : (b.node j).NodeInv) (hne : j ≠ i) {old : ι → RxImage}
    (hok : b.InStep takes (.frame i old)) (hremote : (b.frame i).remote = false)
    (hc : c.node j = b.hear takes i old j) : Passed takes b c i j := by
  have hissued : issued j [(i, b.frame i)] = [] := Broadcast.issued_other hne.symm
  cases htakes : takes j (b.frame i) with
  | false =>
      have hnot : addressed takes j (i, b.frame i) = false := by
        simp [addressed, htakes]
      have hsame : c.node j = b.node j := by
        rw [hc, hear, htakes]
        rfl
      refine ⟨hsame ▸ h, by rw [hsame], by rw [hsame, hissued, List.append_nil], by rw [hsame], ?_⟩
      rw [hsame, Broadcast.due_of_not_addressed hnot, List.map_nil, List.append_nil]
  | true =>
      have hj := hok j hne htakes
      have hto : addressed takes j (i, b.frame i) = true := by
        simp [addressed, htakes, hne.symm]
      have hnode : c.node j =
          (b.node j).latch ((b.node j).arrive ((b.frame i).image (old j))) := by
        rw [hc, hear, if_pos htakes]
      have hstep : Sys.step (.arrive ((b.frame i).image (old j))) (b.node j) = some (c.node j) := by
        rw [hnode]
        rfl
      -- No frame overflows, so this one is loaded.
      rcases Option.ne_none_iff_exists'.1 hj.1.1 with ⟨n, hn⟩
      have htrace : (c.node j).trace =
          .loaded n ((b.frame i).image (old j)) :: (b.node j).trace := by
        rw [hnode]
        simp only [Sys.latch, Sys.arrive, hn]
      refine ⟨h.step hj hstep, ?_, ?_, ?_, ?_⟩
      · simp only [Sys.submitted, htrace]
        rfl
      · rw [hissued, List.append_nil]
        simp only [Sys.transmitted, htrace]
        rfl
      · simp only [Sys.contents, htrace, returned]
      · rw [htrace, Broadcast.due_of_addressed hto]
        simp [loaded, content_image hremote]

/-- A frame on the wire is the next message of its node. -/
theorem Inv.of_frame (h : b.Inv takes) {old : ι → RxImage}
    (hok : b.InStep takes (.frame i old)) (hstep : b.step takes (.frame i old) = some c) :
    c.Inv takes ∧ Relation.ReflGen (Broadcast.Step takes) (b.view takes) (c.view takes) := by
  rcases eq_of_frame hstep with ⟨t, ht, hc⟩
  have hself : c.node i = t := by
    rw [hc]
    simp only [Function.update_self]
  have hlog : c.log = b.log ++ [(i, b.frame i)] := by
    rw [hc]
  have hsender : Passed takes b c i i := .sender (h.node i) (hself ▸ ht)
  -- The frame is the first of its node that was not on the wire.
  have hnext : ∃ rest, (b.node i).submitted = issued i b.log ++ b.frame i :: rest := by
    rcases hsender.node.tx.transmits.inOrder with ⟨rest, hrest⟩
    rw [hsender.transmitted, hsender.submitted, Broadcast.issued_self, h.sent i] at hrest
    exact ⟨rest, by rw [← hrest]; simp⟩
  rcases hnext with ⟨rest, hrest⟩
  have hremote : (b.frame i).remote = false := by
    apply Sys.remote_of_mem_submitted (s := b.node i)
    rw [hrest]
    simp
  have hpassed : ∀ j, Passed takes b c i j := by
    intro j
    by_cases hj : j = i
    · exact hj ▸ hsender
    · refine .other (h.node j) hj hok hremote ?_
      rw [hc]
      simp only [Function.update_of_ne hj]
  refine ⟨⟨fun j => (hpassed j).node, ?_, ?_⟩, .single ?_⟩
  · intro j
    rw [(hpassed j).transmitted, hlog, Broadcast.issued_append, h.sent j]
  · intro j
    rw [(hpassed j).came, hlog, Broadcast.due_append, List.map_append, h.came j]
  · have hview : c.view takes =
        { b.view takes with log := (b.view takes).log ++ [(i, b.frame i)] } := by
      simp only [view, hlog, Broadcast.State.mk.injEq, true_and]
      refine ⟨funext fun j => (hpassed j).submitted, funext fun j => ?_⟩
      rw [(hpassed j).contents, Broadcast.due_append,
        List.take_append_of_le_length (h.length_le j)]
    rw [hview]
    exact .order i (b.frame i) rest hrest

theorem Inv.boot (takes : ι → CanFrame → Bool) (r : ι → Regs) : (Bus.boot r).Inv takes :=
  ⟨fun i => .boot (r i), fun _ => rfl, fun _ => rfl⟩

/-- The invariant holds in every run, and the run is one of the broadcast. -/
theorem Inv.run {r : ι → Regs} {ls : List (BusLabel ι)}
    (h : Run (step takes) (InStep takes) (Bus.boot r) ls b) :
    b.Inv takes ∧ Relation.ReflTransGen (Broadcast.Step takes) .empty (b.view takes) := by
  refine h.simulates (I := Inv takes) (f := view takes) ?_ (.boot takes r)
  intro b l c hinv hok hstep
  cases l with
  | node i l =>
      rcases eq_of_node hstep with ⟨hl, t, ht, rfl⟩
      exact hinv.of_node hok hl ht
  | frame i old => exact hinv.of_frame hok hstep

/-- Nothing can move at any node, and no request waits for the wire. -/
structure AtRest (b : Bus ι) : Prop where
  still : ∀ i, (b.node i).Still
  noRequest : ∀ i, (b.node i).regs TXB0CTRL &&& TXREQ = 0#8

end Bus

/-! ## Frames that wait -/

/-- At most one frame waits in each buffer. -/
theorem Queue.length_waiting {tr : List Event} (h : Queue tr) :
    (waiting tr).length = (unread .b0 tr).isSome.toNat + (unread .b1 tr).isSome.toNat := by
  have hcount : ∀ n, ((waiting tr).map Prod.fst).count n = (unread n tr).isSome.toNat := by
    intro n
    rw [List.Nodup.count h.nodup]
    cases hn : unread n tr with
    | none =>
        have hnot : n ∉ (waiting tr).map Prod.fst := by
          rintro hmem
          rcases List.mem_map.1 hmem with ⟨⟨m, c⟩, hc, rfl⟩
          rcases (h.mem m c).1 hc with ⟨img, himg, -⟩
          cases hn.symm.trans himg
        rw [if_neg hnot]
        rfl
    | some img =>
        have hmem : n ∈ (waiting tr).map Prod.fst :=
          List.mem_map.2 ⟨_, (h.mem n (content img)).2 ⟨img, hn, rfl⟩, rfl⟩
        rw [if_pos hmem]
        rfl
  have hlength : ∀ l : List RxBuf, l.length = l.count .b0 + l.count .b1 := by
    intro l
    induction l with
    | nil => rfl
    | cons n l ih =>
        cases n with
        | b0 => simp [ih]; omega
        | b1 => simp [ih]; omega
  rw [← List.length_map (f := Prod.fst), hlength, hcount, hcount]

/-- What was loaded is what was returned, and one frame for each token. -/
theorem Sys.NodeInv.length_loaded (h : s.NodeInv) (hans : s.Answered) :
    (loaded s.trace).length = s.contents.length + s.rxSem := by
  rcases h.rx with ⟨mask, hrx⟩
  rw [hrx.inQueue.queue.split, List.length_append, hrx.inQueue.queue.length_waiting,
    hrx.delivery.rxSem_of_answered hans, Sys.contents, List.length_map]
  rfl

/-! ## Runs -/

open Broadcast (issued due addressed)

variable {takes : ι → CanFrame → Bool} {b : Bus ι}

/-- What the bus promises: it is a broadcast, and the calls return what the broadcast delivers. -/
structure Bus.Broadcasts (takes : ι → CanFrame → Bool) (b : Bus ι) : Prop where
  refines : Relation.ReflTransGen (Broadcast.Step takes) .empty (b.view takes)
  returns : ∀ j, (b.node j).contents = ((b.view takes).got j).map fun p => frameContent p.2

/-- Under the conditions that keep the order at each node, any number of nodes in any interleaving
form a broadcast: every frame handed in is carried in turn, and every other node returns the frames
of the wire in the order of the wire, once each and whole. -/
theorem bus_refines_broadcast {r : ι → Regs} {ls : List (BusLabel ι)}
    (h : Run (Bus.step takes) (Bus.InStep takes) (Bus.boot r) ls b) : b.Broadcasts takes := by
  rcases Bus.Inv.run h with ⟨hinv, hreach⟩
  exact ⟨hreach, hinv.contents⟩

/-- A call with one data byte. -/
def oneByteCall (canId : BitVec 32) (x : Byte) : SendCall :=
  ⟨canId, fun _ => x, 1#8⟩

/-- Node 0 sends two frames; both go to nodes 1 and 2, which return the first one. -/
def twoFrames : List (BusLabel (Fin 3)) :=
  let blank : Fin 3 → RxImage := fun _ => oneByte 0#8 0xFF#8
  .node 0 (.submit (oneByteCall 5#32 0x55#8)) :: List.replicate 8 (.node 0 .sender) ++
    .frame 0 blank :: List.replicate 8 (.node 0 .canService) ++
    .node 0 (.submit (oneByteCall 6#32 0x66#8)) :: List.replicate 8 (.node 0 .sender) ++
    .frame 0 blank :: List.replicate 14 (.node 1 .canService) ++
    List.replicate 14 (.node 2 .canService) ++
    .node 1 (.receive fun _ => 0#8) :: List.replicate 9 (.node 1 .reader) ++
    .node 2 (.receive fun _ => 0#8) :: List.replicate 9 (.node 2 .reader)

theorem bus_refines_broadcast_three :
    ∃ b : Bus (Fin 3), ((b.node 1).contents = [(oneByteCall 5#32 0x55#8).content] ∧
      (b.node 2).contents.length = 1 ∧ b.log.length = 2) ∧ b.Broadcasts fun _ _ => true := by
  rcases exists_run_of_exec (Bus.step fun _ _ => true) (Bus.InStep fun _ _ => true)
    (Bus.boot fun _ => rolloverRegs) twoFrames
    (fun b => (b.node 1).contents = [(oneByteCall 5#32 0x55#8).content] ∧
      (b.node 2).contents.length = 1 ∧ b.log.length = 2) (by decide +kernel) with ⟨b, hrun, hb⟩
  exact ⟨b, of_decide_eq_true hb, bus_refines_broadcast hrun⟩

/-- In such a run, two nodes to which the same frames are addressed return the same contents in the
same order, as far as both have come; and a node that listens to one other node returns what was
handed in there, in order, as from a queue. -/
theorem bus_order {r : ι → Regs} {ls : List (BusLabel ι)}
    (h : Run (Bus.step takes) (Bus.InStep takes) (Bus.boot r) ls b) :
    (∀ j k, (∀ p ∈ b.log, addressed takes j p = addressed takes k p) →
      (b.node j).contents <+: (b.node k).contents ∨
        (b.node k).contents <+: (b.node j).contents) ∧
      ∀ i j, i ≠ j → (∀ p ∈ b.log, addressed takes j p = true → p.1 = i) →
        (b.node j).contents <+:
          ((b.node i).submitted.filter (takes j)).map frameContent := by
  rcases Bus.Inv.run h with ⟨hinv, hreach⟩
  have hordered := Broadcast.Ordered.empty.run hreach
  refine ⟨?_, ?_⟩
  · intro j k hsame
    rw [hinv.contents j, hinv.contents k]
    rcases hordered.agree_of_same (j := j) (k := k) hsame with hjk | hkj
    · exact Or.inl (hjk.map _)
    · exact Or.inr (hkj.map _)
  · intro i j hne honly
    have hfrom := (hordered.from_only hne honly).map frameContent
    rw [List.map_map] at hfrom
    rw [hinv.contents j]
    exact hfrom

/-- Nodes 1 and 2 have returned the first call of node 0, and agree. -/
theorem bus_order_three :
    ∃ b : Bus (Fin 3), (b.node 1).contents = [(oneByteCall 5#32 0x55#8).content] ∧
      (b.node 1).contents <+: (b.node 0).submitted.map frameContent := by
  rcases exists_run_of_exec (Bus.step fun _ _ => true) (Bus.InStep fun _ _ => true)
    (Bus.boot fun _ => rolloverRegs) twoFrames
    (fun b => (b.node 1).contents = [(oneByteCall 5#32 0x55#8).content] ∧
      ∀ p ∈ b.log, addressed (fun _ _ => true) 1 p = true → p.1 = 0) (by decide +kernel)
    with ⟨b, hrun, hb⟩
  rcases of_decide_eq_true hb with ⟨hone, honly⟩
  have hfifo := (bus_order hrun).2 0 1 (by decide) honly
  rw [List.filter_true] at hfifo
  exact ⟨b, hone, hfifo⟩

/-- Where nothing moves any more, nothing is lost: every frame handed in has been on the wire, each
node has a token for every frame addressed to it that is still to be returned, and a node with a
read under way has returned all of them. -/
theorem bus_delivers_all {r : ι → Regs} {ls : List (BusLabel ι)}
    (h : Run (Bus.step takes) (Bus.InStep takes) (Bus.boot r) ls b) (hrest : b.AtRest) :
    (∀ i, issued i b.log = (b.node i).submitted) ∧
      ∀ j, (due takes j b.log).length = (b.node j).contents.length + (b.node j).rxSem ∧
        ((b.node j).reader ≠ none →
          (b.node j).contents = (due takes j b.log).map fun p => frameContent p.2) := by
  rcases Bus.Inv.run h with ⟨hinv, -⟩
  have hsound : ∀ i, (b.node i).Sound := by
    refine Bus.invariant_node (P := Sys.Sound) ?_ h fun i => .boot (r i)
    intro s l t hI hok hstep
    refine hI.step ?_ hstep
    cases l with
    | submit c => exact hok.2.1
    | _ => trivial
  have hans : ∀ i, (b.node i).Answered := fun i => (hsound i).answered (hrest.still i)
  have hcount : ∀ j, (due takes j b.log).length =
      (b.node j).contents.length + (b.node j).rxSem := by
    intro j
    have hcame := congrArg List.length (hinv.came j)
    rw [List.length_map, List.length_map, (hinv.node j).length_loaded (hans j)] at hcame
    exact hcame.symm
  refine ⟨?_, fun j => ⟨hcount j, ?_⟩⟩
  · intro i
    -- A sender that waits would wait for a request.
    have hsender : (b.node i).sender = none := by
      cases hs : (b.node i).sender with
      | none => rfl
      | some p => exact absurd (hrest.noRequest i) ((hans i).sender p hs).2
    rw [← hinv.sent i]
    exact (hinv.node i).tx.transmits.all hsender (hrest.noRequest i)
  · intro hreader
    rcases Option.ne_none_iff_exists'.1 hreader with ⟨p, hp⟩
    have hall := hcount j
    rw [((hans j).reader p hp).2, Nat.add_zero] at hall
    have hgot : (b.view takes).got j = due takes j b.log := by
      show (due takes j b.log).take (b.node j).contents.length = _
      rw [← hall, List.take_length]
    rw [hinv.contents j, hgot]

/-- Node 0 sends two frames; node 1 returns both and waits for a third, node 2 returns none. -/
def restSchedule : List (BusLabel (Fin 3)) :=
  let blank : Fin 3 → RxImage := fun _ => oneByte 0#8 0xFF#8
  let taken : List (BusLabel (Fin 3)) := .node 1 (.receive fun _ => 0#8) ::
    List.replicate 9 (.node 1 .reader)
  .node 0 (.submit (oneByteCall 5#32 0x55#8)) :: List.replicate 8 (.node 0 .sender) ++
    .frame 0 blank :: .node 0 (.irqHandler 1) :: List.replicate 10 (.node 0 .canService) ++
    .node 0 (.submit (oneByteCall 6#32 0x66#8)) :: List.replicate 8 (.node 0 .sender) ++
    .frame 0 blank :: .node 0 (.irqHandler 2) :: List.replicate 8 (.node 0 .canService) ++
    .node 1 (.irqHandler 3) :: List.replicate 16 (.node 1 .canService) ++
    .node 2 (.irqHandler 3) :: List.replicate 16 (.node 2 .canService) ++
    taken ++ taken ++ [.node 1 (.receive fun _ => 0#8)]

theorem bus_delivers_all_three :
    ∃ b : Bus (Fin 3), (b.node 0).submitted.length = 2 ∧
      (b.node 1).contents = b.log.map (fun p => frameContent p.2) ∧
        (due (fun _ _ => true) 2 b.log).length = 0 + (b.node 2).rxSem := by
  rcases exists_run_of_exec (Bus.step fun _ _ => true) (Bus.InStep fun _ _ => true)
    (Bus.boot fun _ => rolloverRegs) restSchedule
    (fun b => (∀ i, (b.node i).canStep = none ∧ (b.node i).readerStep = none ∧
        (b.node i).senderStep = none ∧ (b.node i).edge = false ∧
          (b.node i).regs TXB0CTRL &&& TXREQ = 0#8) ∧
      (b.node 0).submitted.length = 2 ∧ (b.node 1).reader ≠ none ∧
        due (fun _ _ => true) 1 b.log = b.log ∧ (b.node 2).contents.length = 0)
    (by decide +kernel) with ⟨b, hrun, hb⟩
  rcases of_decide_eq_true hb with ⟨hstill, htwo, hreader, hdue, hnone⟩
  have hrest : b.AtRest :=
    ⟨fun i => ⟨(hstill i).1, (hstill i).2.1, (hstill i).2.2.1, (hstill i).2.2.2.1⟩,
      fun i => (hstill i).2.2.2.2⟩
  have hall := (bus_delivers_all hrun hrest).2
  refine ⟨b, htwo, ?_, ?_⟩
  · rw [(hall 1).2 hreader, hdue]
  · rw [(hall 2).1, hnone]

end Mcp2515Task
end PicoCppSdk
