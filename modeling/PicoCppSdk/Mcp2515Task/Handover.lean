import PicoCppSdk.Mcp2515Task.Startup

/-!
# Handover — from `initialInTask` to the running system

From a reset controller on, the system with its start-up shows nothing that the system of `Sys`
does not show from `Sys.boot` on.  When `initialInTask` returns `canService` may be anywhere in its
wait: at a place where `Sys` can have it too, or one step before it.
-/

namespace PicoCppSdk
namespace Mcp2515Task

open Atomic Mcp2515 Transition

/-! ## `canService` ahead of `Sys` -/

/-- A step of any other party, and any event. -/
def Label.others : Label → Option Label
  | .canService => none
  | l => some l

/-- Where `canService` may be, and where `Sys` has it meanwhile. -/
inductive RunPc.Ahead : RunPc → RunPc → Prop where
  | same (p : RunPc) : Ahead p p
  | delay : Ahead .awaitDelay .await
  /-- It has seen the pin low and finds no flag. -/
  | read : Ahead .readIntf .poll

/-- The state with `canService` at `p`. -/
def Sys.canAt (s : Sys) (p : RunPc) : Sys :=
  { s with can := p }

/-- The two agree but for where `canService` is. -/
structure Sys.Ahead (s v : Sys) : Prop where
  created : v.created = true
  sys : s = v.canAt s.can
  can : RunPc.Ahead s.can v.can

/-- A condition on the steps that does not look at `canService`, and keeps the payloads short. -/
structure Unseen (ok : Sys → Label → Prop) : Prop where
  canService : ∀ s, ok s .canService
  canAt : ∀ s p l, ok (s.canAt p) l → ok s l
  payloads : ∀ s l, ok s l → Payloads s l

theorem unseen_payloads : Unseen Payloads :=
  ⟨fun _ => trivial, fun _ _ _ h => h, fun _ _ h => h⟩

section Ahead

variable {ok : Sys → Label → Prop} {s t v : Sys} {l : Label}

/-- Only `canService` looks at its control point. -/
theorem Sys.take_canAt (m : Sem) (s : Sys) (p : RunPc) :
    (s.canAt p).take m = (s.take m).map (Sys.canAt · p) := by
  cases m <;> simp only [Sys.take, apply_ite (Option.map (Sys.canAt · p)), Option.map_some,
    Option.map_none] <;> rfl

theorem Sys.perform_canAt (a : Act) (s : Sys) (p : RunPc) :
    Sys.perform a (s.canAt p) = (Sys.perform a s).map fun q => (q.1, q.2.canAt p) := by
  cases a with
  | take m =>
      simp only [Sys.perform, Sys.take_canAt, Option.map_map]
      rfl
  | load v => cases v <;> rfl
  | store v x => cases v <;> rfl
  | give m => cases m <;> rfl
  | _ => rfl

theorem Sys.step_canAt (hl : l ≠ .canService) (s : Sys) (p : RunPc) :
    Sys.step l (s.canAt p) = (Sys.step l s).map (Sys.canAt · p) := by
  -- A call looks at its own control point and at what is shared, an event at the registers.
  have hmove : (s.canAt p).move l = (s.move l).map (Sys.canAt · p) := by
    cases l with
    | canService => exact absurd rfl hl
    | reader =>
        change (s.canAt p).readerStep = s.readerStep.map (Sys.canAt · p)
        cases hreader : s.reader with
        | none => simp [Sys.readerStep, Sys.canAt, hreader]
        | some q =>
            rw [readerStep_at (s := s.canAt p) hreader, readerStep_at hreader, Sys.perform_canAt,
              Option.map_map, Option.map_map]
            refine congrArg (Option.map · _) (funext fun x => ?_)
            simp only [Function.comp_apply]
            split <;> rfl
    | sender =>
        change (s.canAt p).senderStep = s.senderStep.map (Sys.canAt · p)
        cases hsender : s.sender with
        | none => simp [Sys.senderStep, Sys.canAt, hsender]
        | some q =>
            rw [senderStep_at (s := s.canAt p) hsender, senderStep_at hsender, Sys.perform_canAt,
              Option.map_map, Option.map_map]
            refine congrArg (Option.map · _) (funext fun x => ?_)
            simp only [Function.comp_apply]
            split <;> rfl
    | receive buf =>
        cases hreader : s.reader <;> simp [Sys.move, Sys.receive, Sys.canAt, hreader]
    | submit c =>
        cases hsender : s.sender <;> simp [Sys.move, Sys.submit, Sys.canAt, hsender]
    | irqHandler now =>
        simp only [Sys.move, Sys.irqHandler, apply_ite (Option.map (Sys.canAt · p)),
          Option.map_some, Option.map_none]
        rfl
    | arrive img =>
        have htarget : (s.canAt p).rxTarget = s.rxTarget := rfl
        simp only [Sys.move, Sys.arrive, htarget, Option.map_some]
        split <;> rfl
    | complete =>
        simp only [Sys.move, Sys.complete, apply_ite (Option.map (Sys.canAt · p)), Option.map_some,
          Option.map_none]
        rfl
    | raise flags eflg => rfl
  rw [Sys.step, Sys.step, hmove, Option.map_map, Option.map_map]
  rfl

/-- A step of `canService` that does nothing but go on. -/
theorem Sys.canService_step {p : RunPc} (hmove : s.canStep = some (s.canAt p)) :
    Sys.step .canService s = some (s.canAt p) := by
  have hlatch : s.latch (s.canAt p) = s.canAt p := Sys.latch_of_regs rfl
  rw [Sys.step, Sys.move, hmove, Option.map_some, hlatch]

theorem Sys.poll_step (hpc : s.can = .poll) :
    Sys.step .canService s = some (s.canAt (if s.intHigh then .block else .readIntf)) := by
  apply canService_step
  rw [canStep_at hpc]
  have hnext : RunPc.goto (RunPc.next .poll s.intHigh) =
      if s.intHigh then .block else .readIntf := by
    cases s.intHigh <;> rfl
  exact congrArg (fun p => some (s.canAt p)) hnext

theorem Sys.readIntf_step (hpc : s.can = .readIntf) :
    Sys.step .canService s =
      some (s.canAt (RunPc.goto (RunPc.fromIntf (s.regs CANINTF)))) := by
  apply canService_step
  rw [canStep_at hpc]
  rfl

theorem Sys.Ahead.refl (h : s.created = true) : s.Ahead s :=
  ⟨h, rfl, .same _⟩

/-- The other parties do not notice. -/
theorem Sys.Ahead.step_others (h : s.Ahead v) (hl : l ≠ .canService)
    (hstep : Sys.step l s = some t) : ∃ v', Sys.step l v = some v' ∧ t.Ahead v' := by
  rw [h.sys, Sys.step_canAt hl] at hstep
  rcases Option.map_eq_some_iff.1 hstep with ⟨v', hv, rfl⟩
  refine ⟨v', hv, (Sys.created_of_step hv).trans h.created, rfl, ?_⟩
  rcases Option.map_eq_some_iff.1 hv with ⟨u, hmove, rfl⟩
  change RunPc.Ahead s.can u.can
  rw [Sys.can_of_move hl hmove]
  exact h.can

/-- `Sys` comes to where `canService` is, or `canService` comes with its next step to where `Sys`
is. -/
theorem Sys.Ahead.catchUp (hok : Unseen ok) (h : s.Ahead v) :
    (∃ n, Run Sys.step ok v (List.replicate n .canService) s) ∨
      Sys.step .canService s = some v := by
  rcases h with ⟨-, hsys, hcan⟩
  have hback : ∀ p, v.can = p → s.canAt p = v := by
    rintro p rfl
    rw [hsys]
    rfl
  generalize hp : s.can = p at hcan
  generalize hq : v.can = q at hcan
  cases hcan with
  | same =>
      obtain rfl : s = v := (hp ▸ hback p hq : s.canAt s.can = v)
      exact Or.inl ⟨0, .nil s⟩
  | delay =>
      have hnext : Sys.step .canService s = some (s.canAt .await) :=
        Sys.canService_step (by rw [canStep_at hp]; rfl)
      rw [hback _ hq] at hnext
      exact Or.inr hnext
  | read =>
      have hread := Sys.readIntf_step hp
      by_cases hsilent : s.regs CANINTF &&& enabled = 0#8
      · rw [RunPc.goto_fromIntf_poll hsilent, hback _ hq] at hread
        exact Or.inr hread
      · -- A flag has come since, so that `Sys` finds the pin low as well.
        have hregs : s.regs = v.regs := by rw [hsys]; rfl
        have hlow : v.intHigh = false := by
          rw [Sys.intHigh, ← hregs, beq_eq_false_iff_ne]
          exact hsilent
        have hpoll := Sys.poll_step hq
        rw [hlow, if_neg Bool.false_ne_true, ← hp, ← hsys] at hpoll
        exact Or.inl ⟨1, .single (hok.canService _) hpoll⟩

/-- `Sys` follows `canService`, if not at once. -/
theorem Sys.Ahead.step_canService (hok : Unseen ok) (h : s.Ahead v)
    (hstep : Sys.step .canService s = some t) :
    ∃ v' n, t.Ahead v' ∧ Run Sys.step ok v (List.replicate n .canService) v' := by
  rcases h.catchUp hok with ⟨n, hrun⟩ | hnext
  · have hcreated : s.created = true := by
      rw [h.sys]
      exact h.created
    refine ⟨t, n + 1, .refl ((Sys.created_of_step hstep).trans hcreated), ?_⟩
    rw [List.replicate_succ']
    exact hrun.append (.single (hok.canService _) hstep)
  · obtain rfl : t = v := Option.some.inj (hstep.symm.trans hnext)
    exact ⟨t, 0, .refl h.created, .nil t⟩

end Ahead

/-! ## After `initialInTask` -/

/-- A register that neither a task nor the controller changes: none of TXB0 and the two receive
buffers, of the flags and of `CANCTRL`. -/
structure Fixed (a : Byte) : Prop where
  txb0 : ¬ InTxb0 a
  txb0ctrl : a ≠ TXB0CTRL
  intf : a ≠ CANINTF
  eflg : a ≠ EFLG
  ctrl : a ≠ CANCTRL
  rx : ∀ n : RxBuf, ¬ (a - n.base).toNat < 13

theorem fixed_caninte : Fixed CANINTE where
  txb0 := by decide
  txb0ctrl := by decide
  intf := by decide
  eflg := by decide
  ctrl := by decide
  rx n := by cases n <;> decide

theorem fixed_rxb0ctrl : Fixed RXB0CTRL where
  txb0 := by decide
  txb0ctrl := by decide
  intf := by decide
  eflg := by decide
  ctrl := by decide
  rx n := by cases n <;> decide

theorem Sys.move_fixed {s t : Sys} {l : Label} {a : Byte} (ha : Fixed a) (hcalls : s.InCalls)
    (hwrites : s.SenderWrites) (h : s.move l = some t) : t.regs a = s.regs a := by
  cases l with
  | canService => exact (canMove_of_canStep h).frame.2.2.2 a ha.intf ha.ctrl
  | reader => rw [(readerMove_of_readerStep h).regs hcalls.reads]
  | sender => exact hwrites.regs (senderMove_of_senderStep h) ha.txb0 ha.txb0ctrl
  | receive buf =>
      rcases eq_of_receive h with ⟨-, rfl⟩
      rfl
  | submit c =>
      rcases eq_of_submit h with ⟨-, rfl⟩
      rfl
  | irqHandler now =>
      rcases eq_of_irqHandler h with ⟨-, rfl⟩
      rfl
  | arrive img =>
      cases h
      cases hn : s.rxTarget with
      | some n =>
          simp only [arrive, hn]
          rw [Regs.modify_of_ne ha.intf, Regs.load_of_outside (ha.rx n)]
      | none =>
          simp only [arrive, hn]
          rw [Regs.modify_of_ne ha.intf, Regs.modify_of_ne ha.eflg]
  | complete => exact (completed_of_complete h).regs a ha.intf ha.txb0ctrl
  | raise flags eflg =>
      cases h
      simp only [raise]
      rw [Regs.modify_of_ne ha.intf, Regs.write_of_ne ha.eflg]

section Board

variable {por : Reset} {z : Byte} {b b' : Board}

theorem RunPc.act_plain (p : RunPc) : p.act.Plain := by
  have hintf : ¬ ConfigOnly CANINTF := by decide
  have hctrl : ¬ ConfigOnly CANCTRL := by decide
  cases p with
  | readIntf => exact ⟨trivial, trivial⟩
  | readEflg => exact ⟨trivial, trivial⟩
  | clearErr eflg => exact ⟨trivial, hintf⟩
  | rxClear n f => exact ⟨trivial, hintf⟩
  | txClear f => exact ⟨trivial, hintf⟩
  | reqConfig => exact ⟨trivial, hctrl⟩
  | reqNormal => exact ⟨trivial, hctrl⟩
  | _ => trivial

namespace Board

theorem line_eq (hinte : b.sys.regs CANINTE = enabled) : b.line = b.sys.intHigh := by
  rw [line, hinte]
  rfl

/-- With `CANINTE` as `initialInTask` leaves it, an action is that of `Sys`. -/
theorem perform_sys (hinte : b.sys.regs CANINTE = enabled) {a : Act} (ha : a.Plain) :
    (Board.perform por z a b).map (fun q => (q.1, q.2.sys)) = Sys.perform a b.sys := by
  cases a with
  | bus a =>
      have hregs : (((Chip.slave por z).act a b.chip).1,
          ((Chip.slave por z).act a b.chip).2.regs) = a.onRegs b.sys.regs :=
        Chip.act_regs ha.2
      simp only [perform, Sys.perform, Option.map_some, ← hregs]
      rfl
  | gpioGet => simp only [perform, Sys.perform, Option.map_some, line_eq hinte]
  | _ =>
      simp only [perform, Option.map_map]
      exact congrFun Option.map_id _

theorem perform_registered {a : Act} {q : a.Ans × Board}
    (h : Board.perform por z a b = some q) : q.2.registered = b.registered := by
  cases a with
  | bus a => exact Option.some.inj h ▸ rfl
  | gpioGet => exact Option.some.inj h ▸ rfl
  | _ =>
      simp only [perform] at h
      rcases Option.map_eq_some_iff.1 h with ⟨x, -, rfl⟩
      rfl

theorem move_sys {l : Label} (hinte : b.sys.regs CANINTE = enabled)
    (h : b.move por z l = some b') :
    b.sys.move l = some b'.sys ∧ b'.registered = b.registered := by
  cases l with
  | canService =>
      have hat := (canStep_at rfl).symm.trans h
      rcases Option.map_eq_some_iff.1 hat with ⟨q, hq, rfl⟩
      refine ⟨?_, perform_registered hq⟩
      have hsys : (Board.perform por z _ b).map _ = _ :=
        perform_sys hinte (RunPc.act_plain b.sys.can)
      rw [hq, Option.map_some] at hsys
      change b.sys.canStep = _
      rw [Mcp2515Task.canStep_at rfl, ← hsys]
      rfl
  | _ =>
      simp only [move] at h
      rcases Option.map_eq_some_iff.1 h with ⟨t, ht, rfl⟩
      exact ⟨ht, rfl⟩

end Board
end Board

/-- `initialInTask` has returned, and the calls and the registers are as they should be. -/
structure Startup.Running (s : Startup) : Prop where
  returned : s.init = .ret ()
  registered : s.board.registered = true
  inte : s.board.sys.regs CANINTE = enabled
  calls : s.board.sys.InCalls
  writes : s.board.sys.SenderWrites

/-- From then on a step is one of `Sys`. -/
theorem Startup.Running.step {por : Reset} {z : Byte} {s t : Startup} {l : Mcp2515Task.Label}
    (h : s.Running) (hok : Payloads s.board.sys l)
    (hstep : Startup.step por z (.other l) s = some t) :
    t.Running ∧ Sys.step l s.board.sys = some t.board.sys := by
  have hmove : (s.board.move por z l).map (fun b => (⟨s.board.latch b, s.init⟩ : Startup)) =
      some t := by
    simp only [Startup.step] at hstep
    split at hstep
    · exact hstep
    · cases hstep
  rcases Option.map_eq_some_iff.1 hmove with ⟨b, hb, rfl⟩
  rcases Board.move_sys h.inte hb with ⟨hsys, hreg⟩
  have hinte : b.sys.regs CANINTE = enabled :=
    (Sys.move_fixed fixed_caninte h.calls h.writes hsys).trans h.inte
  have hlatch : (s.board.latch b).sys = s.board.sys.latch b.sys := by
    simp only [Board.latch, Sys.latch, Board.line_eq h.inte, Board.line_eq hinte, hreg,
      h.registered, Bool.true_and]
  have hnext : Sys.step l s.board.sys = some (s.board.latch b).sys := by
    rw [Sys.step, hsys, Option.map_some, hlatch]
  refine ⟨⟨h.returned, hreg.trans h.registered, hinte, h.calls.step hnext, ?_⟩, hnext⟩
  refine h.writes.systemStep h.calls.reads ?_ hnext
  rintro c rfl
  exact hok

/-- `canService` can go on where `Sys` has it go on. -/
theorem Startup.Running.exists_canService {por : Reset} {z : Byte} {s : Startup} {v : Sys}
    (h : s.Running) (hstep : Sys.step .canService s.board.sys = some v) :
    ∃ t, Startup.step por z (.other .canService) s = some t ∧ t.board.sys = v := by
  have hsys : (Board.perform por z _ s.board).map _ = _ :=
    Board.perform_sys h.inte (RunPc.act_plain s.board.sys.can)
  rcases Option.map_eq_some_iff.1 hstep with ⟨u, hmove, -⟩
  have hcan : s.board.sys.canStep = some u := hmove
  rw [Mcp2515Task.canStep_at rfl] at hcan
  rcases Option.map_eq_some_iff.1 hcan with ⟨x, hx, -⟩
  rcases Option.map_eq_some_iff.1 (hsys.trans hx) with ⟨q, hq, -⟩
  have hboard : ∃ b, s.board.canStep por z = some b := by
    rw [Board.canStep_at rfl, hq]
    exact ⟨_, rfl⟩
  rcases hboard with ⟨b, hb⟩
  have ht : Startup.step por z (.other .canService) s = some ⟨s.board.latch b, s.init⟩ :=
    congrArg (Option.map fun b => (⟨s.board.latch b, s.init⟩ : Startup)) hb
  have hnext := (h.step (unseen_payloads.canService _) ht).2
  exact ⟨_, ht, Option.some.inj (hnext.symm.trans hstep)⟩

/-! ## The whole run -/

section Refinement

variable {ok : Sys → Mcp2515Task.Label → Prop} {por : Reset} {z : Byte} {c : Chip}
  {s t : Startup} {v : Sys}

/-- The registers are such that `Sys.boot` starts from them as they are. -/
structure Booted (c : Chip) : Prop where
  intf : c.regs CANINTF = 0#8
  inte : c.regs CANINTE = enabled
  txb0ctrl : c.regs TXB0CTRL = 0#8

theorem write_same {r : Regs} {addr data : Byte} (h : r addr = data) :
    r.write addr data = r := by
  rw [Regs.write, ← h, Function.update_eq_self]

theorem Booted.boot_eq (hc : Booted c) :
    Sys.boot c.regs = { Sys.boot c.regs with regs := c.regs } := by
  rw [Sys.boot, write_same hc.intf, write_same hc.txb0ctrl]

namespace Startup

/-- `Sys` catches up with `canService`, wherever that waits. -/
theorem Starting.handover (hok : Unseen ok) (hc : Booted c) (h : s.Starting por z .configuration c)
    (hreturned : s.returned = true) :
    s.Running ∧ ∃ v n, s.board.sys.Ahead v ∧
      Run Sys.step ok (Sys.boot c.regs) (List.replicate n .canService) v := by
  rcases h.fresh hreturned with ⟨herase, hidle⟩
  have hsys : s.board.sys = (Sys.boot c.regs).canAt s.board.sys.can := by
    rw [hc.boot_eq]
    exact congrArg (fun b : Board => b.sys.canAt s.board.sys.can) herase
  have hregs : s.board.sys.regs = c.regs := by
    rw [hsys, hc.boot_eq]
    rfl
  refine ⟨⟨?_, congrArg Board.registered herase, hregs ▸ hc.inte, ?_, ?_⟩, ?_⟩
  · rcases s with ⟨b, init⟩
    cases init with
    | ret x => rfl
    | act a k => cases hreturned
  · rw [hsys]
    exact (Sys.InCalls.boot c.regs).congr rfl rfl
  · rw [hsys]
    exact (Sys.SenderWrites.boot c.regs).congr rfl fun _ _ => rfl
  · have hfirst : Sys.step .canService (Sys.boot c.regs) = some ((Sys.boot c.regs).canAt .poll) :=
      Sys.canService_step rfl
    have hline : ((Sys.boot c.regs).canAt .poll).intHigh = true := by
      rw [hc.boot_eq]
      exact beq_iff_eq.2 (by
        change c.regs CANINTF &&& enabled = 0#8
        rw [hc.intf, BitVec.zero_and])
    have hsecond := Sys.poll_step (s := (Sys.boot c.regs).canAt .poll) rfl
    rw [hline, if_pos rfl] at hsecond
    have hrun : Run Sys.step ok (Sys.boot c.regs) [.canService]
        ((Sys.boot c.regs).canAt .poll) := .single (hok.canService _) hfirst
    generalize s.board.sys.can = p at hsys hidle
    rw [hsys]
    cases p with
    | await => exact ⟨_, 0, .refl rfl, .nil _⟩
    | awaitDelay => exact ⟨_, 0, ⟨rfl, rfl, .delay⟩, .nil _⟩
    | poll => exact ⟨(Sys.boot c.regs).canAt .poll, 1, .refl rfl, hrun⟩
    | readIntf => exact ⟨(Sys.boot c.regs).canAt .poll, 1, ⟨rfl, rfl, .read⟩, hrun⟩
    | block => exact ⟨_, 2, .refl rfl, hrun.append (.single (hok.canService _) hsecond)⟩
    | _ => cases hidle

/-- What is seen of a step: all but `initialInTask` and `canService`. -/
def Label.others : Label → Option Mcp2515Task.Label
  | .initialInTask => none
  | .other l => l.others

/-- A condition on the steps of the others. -/
def Lift (ok : Sys → Mcp2515Task.Label → Prop) (s : Startup) : Label → Prop
  | .initialInTask => True
  | .other l => ok s.board.sys l

instance decidableLift [∀ s l, Decidable (ok s l)] (s : Startup) :
    (l : Label) → Decidable (Lift ok s l)
  | .initialInTask => inferInstanceAs (Decidable True)
  | .other l => inferInstanceAs (Decidable (ok s.board.sys l))

/-- `Sys` is at its start until `initialInTask` has returned, and goes along from then on. -/
def Shows (por : Reset) (z : Byte) (c : Chip) (s : Startup) (v : Sys) : Prop :=
  (s.Starting por z .configuration c ∧ s.returned = false ∧ v = Sys.boot c.regs) ∨
    (s.Running ∧ s.board.sys.Ahead v)

/-- Only `initialInTask` comes to its end. -/
theorem returned_of_other {l : Mcp2515Task.Label}
    (hstep : Startup.step por z (.other l) s = some t) : t.returned = s.returned := by
  simp only [Startup.step] at hstep
  split at hstep
  · rcases Option.map_eq_some_iff.1 hstep with ⟨b, -, rfl⟩
    rfl
  · cases hstep

/-- Before that the controller is in configuration mode, and no call is made. -/
theorem Starting.step_none (h : s.Starting por z .configuration c) (hreturned : s.returned = false)
    {l : Mcp2515Task.Label} (hl : l ≠ .canService) : Startup.step por z (.other l) s = none := by
  have hmode : s.board.mode = .configuration := by
    rcases s with ⟨b, init⟩
    cases init with
    | ret x => cases hreturned
    | act a k => exact h.silent.1.mode
  cases l with
  | canService => exact absurd rfl hl
  | irqHandler now => exact h.not_irqHandler now
  | _ => simp [Startup.step, admits, hmode, hreturned]

theorem Shows.step (hok : Unseen ok) (hc : Booted c) (h : s.Shows por z c v) {l : Label}
    (hl : Lift ok s l) (hstep : Startup.step por z l s = some t) :
    ∃ w ms, t.Shows por z c w ∧ Run Sys.step ok v ms w ∧
      ms.filterMap Mcp2515Task.Label.others = [l].filterMap Label.others := by
  rcases h with ⟨hstarting, hreturned, rfl⟩ | ⟨hrunning, hahead⟩
  · cases l with
    | initialInTask =>
        have ht := hstarting.next hc.intf hstep
        cases hend : t.returned with
        | false => exact ⟨_, [], Or.inl ⟨ht, hend, rfl⟩, .nil _, rfl⟩
        | true =>
            rcases ht.handover hok hc hend with ⟨hrunning, w, n, hw, hrun⟩
            refine ⟨w, _, Or.inr ⟨hrunning, hw⟩, hrun, ?_⟩
            rw [List.filterMap_replicate_of_none rfl]
            rfl
    | other l =>
        by_cases hcan : l = .canService
        · subst hcan
          refine ⟨_, [], Or.inl ⟨hstarting.canService hstep, ?_, rfl⟩, .nil _, rfl⟩
          rw [returned_of_other hstep, hreturned]
        · -- Nothing else can happen yet.
          rw [hstarting.step_none hreturned hcan] at hstep
          cases hstep
  · cases l with
    | initialInTask =>
        rw [Startup.step, hrunning.returned] at hstep
        cases hstep
    | other l =>
        rcases hrunning.step (hok.payloads _ _ hl) hstep with ⟨ht, hsys⟩
        by_cases hcan : l = .canService
        · subst hcan
          rcases hahead.step_canService hok hsys with ⟨w, n, hw, hrun⟩
          refine ⟨w, _, Or.inr ⟨ht, hw⟩, hrun, ?_⟩
          rw [List.filterMap_replicate_of_none rfl]
          rfl
        · rcases hahead.step_others hcan hsys with ⟨w, hw, hnext⟩
          refine ⟨w, [l], Or.inr ⟨ht, hnext⟩, .single ?_ hw, rfl⟩
          exact hok.canAt v s.board.sys.can l (hahead.sys ▸ hl)

theorem booted_initialised {r : Regs} (por : Reset) (z : Byte) (row : BitTiming)
    (rxBufferType : RxBufferType) (htx : r TXB0CTRL = 0#8) :
    Booted (initialised por z row rxBufferType ⟨r, .configuration, .ignore⟩) := by
  refine ⟨?_, ?_, ?_⟩
  · rw [regs_initialised]
    cases rxBufferType <;> rfl
  · rw [regs_initialised]
    cases rxBufferType <;> rfl
  · rw [regs_of_untouched _ _ _ _ (txbctrl_notMem_written rxBufferType _ (by decide))]
    exact htx

theorem rxb0ctrl_initialised (por : Reset) (z : Byte) (c : Chip) (row : BitTiming)
    (rxBufferType : RxBufferType) :
    (initialised por z row rxBufferType c).regs RXB0CTRL = rxb0ctrl rxBufferType := by
  rw [regs_initialised]
  cases rxBufferType <;> rfl

/-- A run with its start-up, as a run from `Sys.boot`. -/
theorem exists_run_boot {r : Regs} {row : BitTiming} {rxBufferType : RxBufferType}
    {ls : List Label} (hok : Unseen ok)
    (hquiet : r CANINTF &&& r CANINTE = 0#8 ∨ r CANINTF &&& enabled = 0#8)
    (htx : r TXB0CTRL = 0#8)
    (h : Run (Startup.step por z) (Lift ok) (start r .configuration row rxBufferType) ls s) :
    ∃ v ms, Run Sys.step ok
        (Sys.boot (initialised por z row rxBufferType ⟨r, .configuration, .ignore⟩).regs) ms v ∧
      ms.filterMap Mcp2515Task.Label.others = ls.filterMap Label.others ∧
        (s.returned = true → s.Running ∧ s.board.sys.Ahead v) := by
  have hstart : (start r .configuration row rxBufferType).Shows por z
      (initialised por z row rxBufferType ⟨r, .configuration, .ignore⟩) _ :=
    Or.inl ⟨starting_start r row rxBufferType hquiet, rfl, rfl⟩
  rcases h.simulates_visible (fun s v l t hshow hl hstep => hshow.step hok
      (booted_initialised por z row rxBufferType htx) hl hstep) hstart with
    ⟨v, ms, hshow, hrun, hseen⟩
  refine ⟨v, ms, hrun, hseen, fun hreturned => ?_⟩
  rcases hshow with ⟨-, hnot, -⟩ | hshow
  · rw [hreturned] at hnot
    cases hnot
  · exact hshow

/-- From power-on, with CAN payloads, the system with its start-up does what the system does from
`Sys.boot` on, with the controller as `initialInTask` leaves it, but for the steps of `canService`;
and once `initialInTask` has returned it is in a state of that system, or comes to one with the next
step of `canService`.  Calls are made from then on. -/
theorem startup_refines_boot {r : Regs} {row : BitTiming} {rxBufferType : RxBufferType}
    {ls : List Label} (hquiet : r CANINTF &&& r CANINTE = 0#8 ∨ r CANINTF &&& enabled = 0#8)
    (htx : r TXB0CTRL = 0#8)
    (h : Run (Startup.step por z) (Lift Payloads) (start r .configuration row rxBufferType)
      ls s) :
    ∃ v ms, Run Sys.step Payloads
        (Sys.boot (initialised por z row rxBufferType ⟨r, .configuration, .ignore⟩).regs) ms v ∧
      ms.filterMap Mcp2515Task.Label.others = ls.filterMap Label.others ∧
      (s.returned = true → s.board.sys = v ∨
        ∃ t, Startup.step por z (.other .canService) s = some t ∧ t.board.sys = v) := by
  rcases exists_run_boot unseen_payloads hquiet htx h with ⟨v, ms, hrun, hseen, hshow⟩
  cases hend : s.returned with
  | false =>
      refine ⟨v, ms, hrun, hseen, fun hreturned => ?_⟩
      cases hreturned
  | true =>
      rcases hshow hend with ⟨hrunning, hahead⟩
      rcases hahead.catchUp unseen_payloads with ⟨n, hmore⟩ | hnext
      · refine ⟨s.board.sys, _, hrun.append hmore, ?_, fun _ => Or.inl rfl⟩
        rw [List.filterMap_append, hseen, List.filterMap_replicate_of_none rfl, List.append_nil]
      · exact ⟨v, ms, hrun, hseen, fun _ => Or.inr (hrunning.exists_canService hnext)⟩

/-- The registers after power-on. -/
def powerOn : Regs := fun a => (resetValues a).getD 0#8

/-- `canService` is at the pin before the controller is set up, and a frame comes after that. -/
def earlyPoll : List Label :=
  List.flatten
    [[.other .canService], List.replicate 3 .initialInTask, List.replicate 3 (.other .canService),
      List.replicate 12 .initialInTask,
      [.other (.arrive ⟨0, 0, 0, 0, 0, fun _ => 0⟩), .other (.irqHandler 7), .other .canService]]

theorem startup_refines_boot_powerOn :
    ∃ s, Run (Startup.step resetValues 0#8) (Lift Payloads)
        (start powerOn .configuration (bitrateAddr .MHZ8 .KBPS125) .Rollover) earlyPoll s ∧
      s.returned = true ∧
      ∃ v ms, Run Sys.step Payloads
          (Sys.boot (initialised resetValues 0#8 (bitrateAddr .MHZ8 .KBPS125) .Rollover
            ⟨powerOn, .configuration, .ignore⟩).regs) ms v ∧
        ms.filterMap Mcp2515Task.Label.others = earlyPoll.filterMap Label.others ∧
        (s.returned = true → s.board.sys = v ∨
          ∃ t, Startup.step resetValues 0#8 (.other .canService) s = some t ∧
            t.board.sys = v) := by
  rcases exists_run_of_exec (Startup.step resetValues 0#8) (Lift Payloads)
      (start powerOn .configuration (bitrateAddr .MHZ8 .KBPS125) .Rollover) earlyPoll
      (fun s => s.returned) (by decide +kernel) with ⟨s, hrun, hreturned⟩
  exact ⟨s, hrun, hreturned, startup_refines_boot (by decide) (by decide) hrun⟩

end Startup
end Refinement
end Mcp2515Task
end PicoCppSdk
