import PicoCppSdk.Foundation.History
import PicoCppSdk.Mcp2515Task.Footprint

/-!
# BusOff — the events that take the node off the bus

When the controller goes bus-off it sets `TXBO` in `EFLG` and `ERRIF` in `CANINTF`.  `canService`
reads `CANINTF`, then `EFLG`, then clears all error flags, and starts the recovery if the `EFLG`
that it has read shows `TXBO`.  An event between the last two is cleared unseen, and the node stays off
the bus.

Nothing is discarded as long as the error flags are cleared with `TXBO` read, or with no such event
since the last recovery.
-/

namespace PicoCppSdk
namespace Mcp2515Task

open Atomic Mcp2515 Transition

variable {s t : Sys}

/-! ## The events since the last recovery -/

/-- `TXBO` has risen since `canService` began its last recovery sequence. -/
abbrev WentOff := Bool

def noteBusOff : Label → Sys → WentOff → WentOff
  | .canService, s, off => if s.can = .reqConfig then false else off
  | .raise _ eflg, s, off => off || (eflg.getLsbD 5 && !(s.regs EFLG).getLsbD 5)
  | _, _, off => off

/-- The system with the record. -/
abbrev busOffStep : Label → Sys × WentOff → Option (Sys × WentOff) :=
  withHistory Sys.step noteBusOff

/-- When `TXBO` rises, so does `ERRIF`; what is sent fits into TXB0. -/
def RaisesErrif (s : Sys) : Label → Prop
  | .raise flags eflg =>
      eflg.getLsbD 5 = true → (s.regs EFLG).getLsbD 5 = false → flags.getLsbD 5 = true
  | .submit c => c.len ≤ 8#8
  | _ => True

instance (s : Sys) : (l : Label) → Decidable (RaisesErrif s l)
  | .raise flags eflg =>
      inferInstanceAs (Decidable
        (eflg.getLsbD 5 = true → (s.regs EFLG).getLsbD 5 = false → flags.getLsbD 5 = true))
  | .submit c => inferInstanceAs (Decidable (c.len ≤ 8#8))
  | .canService => inferInstanceAs (Decidable True)
  | .reader => inferInstanceAs (Decidable True)
  | .sender => inferInstanceAs (Decidable True)
  | .receive _ => inferInstanceAs (Decidable True)
  | .irqHandler _ => inferInstanceAs (Decidable True)
  | .arrive _ => inferInstanceAs (Decidable True)
  | .complete => inferInstanceAs (Decidable True)

/-- A bus-off event is discarded: `canService` is back at its loop, has not recovered, and no flag
will tell it to. -/
def Discarded (p : Sys × WentOff) : Prop :=
  p.2 = true ∧ (p.1.regs CANINTF).getLsbD 5 = false ∧ p.1.can = .poll

instance (p : Sys × WentOff) : Decidable (Discarded p) :=
  inferInstanceAs (Decidable (_ ∧ _ ∧ _))

/-! ## `ERRIF` -/

/-- The error flags are cleared at one place. -/
theorem CanMove.errif (hm : CanMove s t) (hpc : ∀ eflg, s.can ≠ .clearErr eflg) :
    (t.regs CANINTF).getLsbD 5 = (s.regs CANINTF).getLsbD 5 := by
  have hclear : ∀ m : Byte, m.getLsbD 5 = false →
      ((s.regs.modify CANINTF m 0#8) CANINTF).getLsbD 5 = (s.regs CANINTF).getLsbD 5 := by
    intro m hm
    rw [Regs.modify_self, getLsbD_clear, hm, Bool.not_false, Bool.and_true]
  cases hm with
  -- The other clears are of `RXnIF` and `TX0IF`, the other writes to `CANCTRL`.
  | clearErr eflg hpc' => exact absurd hpc' (hpc eflg)
  | rxClear n f hpc' =>
      apply hclear
      cases n <;> decide
  | txClear f hpc' =>
      apply hclear
      decide
  | reqConfig hpc' =>
      dsimp only
      rw [Regs.write_of_ne (by decide)]
  | reqNormal hpc' =>
      dsimp only
      rw [Regs.write_of_ne (by decide)]
  | _ => rfl

/-- No event in the controller clears `ERRIF`, and no task but `canService` touches it. -/
theorem Sys.errif {l : Label} (hwrites : s.SenderWrites) (hreads : s.ReaderReads)
    (hl : l ≠ .canService) (hmove : s.move l = some t)
    (hset : (s.regs CANINTF).getLsbD 5 = true) : (t.regs CANINTF).getLsbD 5 = true := by
  cases l with
  | canService => exact absurd rfl hl
  | reader =>
      rw [(readerMove_of_readerStep hmove).regs hreads]
      exact hset
  | sender =>
      rw [hwrites.regs (senderMove_of_senderStep hmove) (by decide) (by decide)]
      exact hset
  | receive buf =>
      rcases eq_of_receive hmove with ⟨-, rfl⟩
      exact hset
  | submit c =>
      rcases eq_of_submit hmove with ⟨-, rfl⟩
      exact hset
  | irqHandler now =>
      rcases eq_of_irqHandler hmove with ⟨-, rfl⟩
      exact hset
  | arrive img =>
      cases hmove
      rw [arrive_intf, hset, Bool.true_or]
  | complete => rw [(completed_of_complete hmove).flagged, hset, Bool.true_or]
  | raise flags eflg =>
      cases hmove
      rw [raise_intf, hset, Bool.true_or]

/-! ## The invariant -/

/-- About to clear the error flags, with an `EFLG` read that has no `TXBO`. -/
def RunPc.clearsWithoutOff : RunPc → Bool
  | .clearErr eflg => !eflg.getLsbD 5
  | _ => false

/-- `canService` does not clear the error flags on an `EFLG` without `TXBO` when there has been a
bus-off event. -/
def Heeds (p : Sys × WentOff) : Label → Prop
  | .canService => ¬ (p.1.can.clearsWithoutOff = true ∧ p.2 = true)
  | _ => True

instance (p : Sys × WentOff) : (l : Label) → Decidable (Heeds p l)
  | .canService => inferInstanceAs (Decidable (¬ (p.1.can.clearsWithoutOff = true ∧ p.2 = true)))
  | .reader => inferInstanceAs (Decidable True)
  | .sender => inferInstanceAs (Decidable True)
  | .receive _ => inferInstanceAs (Decidable True)
  | .submit _ => inferInstanceAs (Decidable True)
  | .irqHandler _ => inferInstanceAs (Decidable True)
  | .arrive _ => inferInstanceAs (Decidable True)
  | .complete => inferInstanceAs (Decidable True)
  | .raise _ _ => inferInstanceAs (Decidable True)

/-- A bus-off event is shown by `ERRIF`, or `canService` is about to recover from it. -/
structure BusOffInv (p : Sys × WentOff) : Prop where
  calls : p.1.InCalls
  writes : p.1.SenderWrites
  shown : p.2 = true → (p.1.regs CANINTF).getLsbD 5 = true ∨ p.1.can = .reqConfig

namespace BusOffInv

variable {off : WentOff}

/-- `canService` keeps `ERRIF` for an event, or recovers from it. -/
theorem can (h : BusOffInv (s, off)) (hok : Heeds (s, off) .canService) (hm : CanMove s t)
    (hoff : noteBusOff .canService s off = true) :
    (t.regs CANINTF).getLsbD 5 = true ∨ t.can = .reqConfig := by
  have hpc : s.can ≠ .reqConfig := by
    intro hpc
    -- A recovery that begins in this step answers the event, and nothing is left to show.
    rw [noteBusOff, if_pos hpc] at hoff
    cases hoff
  rw [noteBusOff, if_neg hpc] at hoff
  cases hclear : s.can with
  | clearErr eflg =>
      cases hm with
      | clearErr eflg' hpc' =>
          cases hclear.symm.trans hpc'
          -- There has been an event, so the `EFLG` that was read shows it.
          have heflg : eflg.getLsbD 5 = true := by
            by_contra hnot
            refine hok ⟨?_, hoff⟩
            simp only [hclear, RunPc.clearsWithoutOff, Bool.eq_false_iff.2 hnot, Bool.not_false]
          right
          exact if_pos ((and_bit5 eflg).2 heflg)
      | _ => cases hclear.symm.trans ‹_›
  | _ =>
      -- Elsewhere `canService` leaves `ERRIF` as it is.
      have hset := (h.shown hoff).resolve_right hpc
      left
      rw [hm.errif (by rw [hclear]; nofun)]
      exact hset

theorem step {l : Label} {p q : Sys × WentOff} (h : BusOffInv p) (hraises : RaisesErrif p.1 l)
    (hok : Heeds p l) (hstep : busOffStep l p = some q) : BusOffInv q := by
  rcases p with ⟨s, off⟩
  rcases q with ⟨t, off'⟩
  rcases withHistory_eq_some.1 hstep with ⟨hsys, rfl⟩
  refine ⟨h.calls.step hsys, h.writes.systemStep h.calls.reads ?_ hsys, ?_⟩
  · rintro c rfl
    exact hraises
  · rcases Option.map_eq_some_iff.1 hsys with ⟨u, hmove, rfl⟩
    intro hoff
    -- An event that is on record was shown before this step, or is raised by it.
    cases l with
    | canService =>
        have hu := h.can hok (canMove_of_canStep hmove) hoff
        exact hu
    | raise flags eflg =>
        rcases Bool.or_eq_true_iff.1 hoff with hoff | hrises
        · rcases h.shown hoff with hset | hpc
          · exact Or.inl (Sys.errif (s := s) (t := u) h.writes h.calls.reads (by nofun) hmove hset)
          · cases hmove
            exact Or.inr hpc
        · -- The event itself sets the flag.
          rcases Bool.and_eq_true_iff.1 hrises with ⟨heflg, hold⟩
          have hflag : flags.getLsbD 5 = true := hraises heflg (by simpa using hold)
          cases hmove
          left
          have hintf := s.raise_intf flags eflg 5
          rw [hflag, Bool.or_true] at hintf
          exact hintf
    | _ =>
        have hcan : u.can = s.can := Sys.can_of_move (by nofun) hmove
        rcases h.shown hoff with hset | hpc
        · exact Or.inl (Sys.errif (s := s) (t := u) h.writes h.calls.reads (by nofun) hmove hset)
        · exact Or.inr (hcan.trans hpc)

theorem boot (r : Regs) : BusOffInv (Sys.boot r, false) :=
  ⟨.boot r, .boot r, nofun⟩

theorem not_discarded {p : Sys × WentOff} (h : BusOffInv p) : ¬ Discarded p := by
  rintro ⟨hoff, hclear, hpc⟩
  rcases h.shown hoff with hset | hpc'
  · rw [hclear] at hset
    cases hset
  · cases hpc.symm.trans hpc'

end BusOffInv

/-! ## Runs -/

/-- Every run of the system has its record. -/
theorem exists_wentOff {ok : Sys → Label → Prop} {ls : List Label}
    (hrun : Run Sys.step ok s ls t) (off : WentOff) :
    ∃ off', Run busOffStep (fun p l => ok p.1 l) (s, off) ls (t, off') :=
  hrun.record

/-- From the clear of the flags, where no recovery follows, `canService` comes back to its loop. -/
theorem exists_discarded {p q : Sys × WentOff} (hstep : busOffStep .canService p = some q)
    (hbad : ¬ Heeds p .canService) :
    ∃ v, Run busOffStep (fun p l => RaisesErrif p.1 l) q [.canService, .canService, .canService] v ∧
      Discarded v := by
  rcases p with ⟨s, off⟩
  rcases not_not.1 hbad with ⟨hclears, hoff⟩
  cases hoff
  cases hpc : s.can with
  | clearErr eflg =>
      have heflg : eflg.getLsbD 5 = false := by
        simpa only [hpc, RunPc.clearsWithoutOff, Bool.not_eq_true'] using hclears
      have hnot : ¬ eflg &&& 0x20#8 ≠ 0#8 := by
        rw [and_bit5, heflg]
        exact Bool.false_ne_true
      have hne : s.can ≠ .reqConfig := by
        rw [hpc]
        nofun
      rcases withHistory_eq_some.1 hstep with ⟨hsys, hnote⟩
      rcases Option.map_eq_some_iff.1 hsys with ⟨u, hmove, hq⟩
      -- The clear takes the event along with the error that `EFLG` was read for.
      have hu : u = { s with
          regs := s.regs.modify CANINTF (MERRF ||| WAKIF ||| ERRIF) 0#8, can := .errLoad } := by
        have hat := (canStep_at hpc).symm.trans hmove
        simp only [RunPc.act, Sys.perform, RunPc.next, if_neg hnot] at hat
        exact (Option.some.inj hat).symm
      have hq' : q = (s.latch u, true) := by
        refine Prod.ext hq.symm ?_
        rw [hnote]
        exact if_neg hne
      subst hu hq'
      -- `_pendingTxBuf &= ~0x01;` and the give are left.
      refine ⟨_, .cons trivial rfl (.cons trivial rfl (.cons trivial rfl (.nil _))), rfl, ?_, rfl⟩
      change ((s.regs.modify CANINTF (MERRF ||| WAKIF ||| ERRIF) 0#8) CANINTF).getLsbD 5 = false
      rw [Regs.modify_self, getLsbD_clear]
      have hbit : (MERRF ||| WAKIF ||| ERRIF).getLsbD 5 = true := by decide
      rw [hbit, Bool.not_true, Bool.and_false]
  | _ =>
      simp only [hpc, RunPc.clearsWithoutOff] at hclears
      cases hclears

/-- No bus-off event is discarded. -/
def NeverDiscards : Prop :=
  ∀ (r : Regs) (ls : List Label) (q : Sys × WentOff),
    Run busOffStep (fun p l => RaisesErrif p.1 l) (Sys.boot r, false) ls q → ¬ Discarded q

/-- A message error; the controller goes bus-off when `canService` has read `EFLG`. -/
theorem not_neverDiscards : ¬ NeverDiscards := by
  intro h
  rcases exists_run_of_exec busOffStep (fun p l => RaisesErrif p.1 l)
    (Sys.boot fun _ => 0#8, false)
    (.canService :: .raise MERRF 0#8 :: .canService :: .canService :: .canService ::
      .raise ERRIF 0x20#8 :: List.replicate 4 .canService)
    (fun q => Discarded q) (by decide +kernel) with ⟨q, hrun, hdiscarded⟩
  exact h _ _ _ hrun (of_decide_eq_true hdiscarded)

/-- In a run in which every clear of the error flags heeds the bus-off events, none is discarded;
and from each state of such a run, a clear that does not leads to a state in which one is. -/
theorem not_discarded_of_heeds {r : Regs} {ls : List Label} {q : Sys × WentOff}
    (h : Run busOffStep (fun p l => RaisesErrif p.1 l ∧ Heeds p l) (Sys.boot r, false) ls q) :
    ¬ Discarded q ∧ ∀ u, busOffStep .canService q = some u → ¬ Heeds q .canService →
      ∃ ms v, Run busOffStep (fun p l => RaisesErrif p.1 l) u ms v ∧ Discarded v := by
  have hinv : BusOffInv q := by
    refine h.invariant ?_ (BusOffInv.boot r)
    intro p l u hI hok hstep
    exact hI.step hok.1 hok.2 hstep
  refine ⟨hinv.not_discarded, ?_⟩
  intro u hstep hbad
  rcases exists_discarded hstep hbad with ⟨v, hrun, hdiscarded⟩
  exact ⟨_, v, hrun, hdiscarded⟩

/-- A bus-off event from which `canService` recovers, and a second one, which waits for it. -/
theorem not_discarded_of_heeds_again :
    ∃ q : Sys × WentOff, q.2 = true ∧ q.1.can = .poll ∧ ¬ Discarded q := by
  rcases exists_run_of_exec busOffStep (fun p l => RaisesErrif p.1 l ∧ Heeds p l)
    (Sys.boot fun _ => 0#8, false)
    (.canService :: .raise ERRIF 0x20#8 :: List.replicate 10 .canService ++
      [.raise 0#8 0#8, .raise ERRIF 0x20#8])
    (fun q => q.2 && q.1.can = .poll) (by decide +kernel) with ⟨q, hrun, hpoll⟩
  rcases Bool.and_eq_true_iff.1 hpoll with ⟨hoff, hpc⟩
  exact ⟨q, hoff, of_decide_eq_true hpc, (not_discarded_of_heeds hrun).1⟩

end Mcp2515Task
end PicoCppSdk
