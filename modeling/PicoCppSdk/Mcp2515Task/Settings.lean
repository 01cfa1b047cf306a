import PicoCppSdk.Mcp2515Task.Handover

/-!
# Settings — what `initialInTask` sets stays set

Once `initialInTask` has returned, no task and no event in the controller changes the bit timing,
the interrupts that are enabled, or how RXB0 receives; and the controller is in normal mode but for the
time in which `run` brings it back from bus-off.
-/

namespace PicoCppSdk
namespace Mcp2515Task

open Atomic Mcp2515 Transition

variable {por : Reset} {z : Byte}

/-! ## The mode -/

/-- Between the two writes to `CANCTRL` with which `run` brings the controller back on the bus. -/
def RunPc.recovers : RunPc → Bool
  | .settle => true
  | .reqNormal => true
  | _ => false

/-- The action writes nothing to `CANCTRL`. -/
def Act.KeepsMode : Act → Prop
  | .bus (.writeByte addr _) => addr ≠ CANCTRL
  | .bus (.bitModify addr _ _) => addr ≠ CANCTRL
  | _ => True

theorem RunPc.keepsMode {p : RunPc} (hconfig : p ≠ .reqConfig) (hnormal : p ≠ .reqNormal) :
    p.act.KeepsMode := by
  have hintf : CANINTF ≠ CANCTRL := by decide
  cases p with
  | reqConfig => exact absurd rfl hconfig
  | reqNormal => exact absurd rfl hnormal
  | clearErr eflg => exact hintf
  | rxClear n f => exact hintf
  | txClear f => exact hintf
  | _ => trivial

namespace Board

variable {b b' : Board}

theorem mode_write {c : Chip} {addr : Byte} (h : addr ≠ CANCTRL) (data : Byte) :
    (c.write addr data).mode = c.mode := by
  unfold Chip.write
  rw [if_neg h]
  split <;> rfl

theorem perform_mode {a : Act} (ha : a.KeepsMode) {q : a.Ans × Board}
    (h : Board.perform por z a b = some q) : q.2.mode = b.mode := by
  cases a with
  | bus a =>
      cases Option.some.inj h
      cases a with
      | writeByte addr data =>
          simp only [Chip.act_writeByte, setChip]
          exact mode_write ha data
      | bitModify addr mask data =>
          simp only [Chip.act_bitModify, setChip]
          exact mode_write ha _
      | _ => rfl
  | gpioGet => exact Option.some.inj h ▸ rfl
  | _ =>
      simp only [perform] at h
      rcases Option.map_eq_some_iff.1 h with ⟨x, -, rfl⟩
      rfl

/-- On the bus, or on the way back to it. -/
def OnBus (b : Board) : Prop :=
  b.mode = .normal ∨ b.sys.can.recovers = true

/-- Elsewhere a step of `run` leaves the mode alone. -/
theorem mode_of_keepsMode {p : RunPc} (hpc : b.sys.can = p) (hp : p.act.KeepsMode)
    (h : b.canStep por z = some b') : b'.mode = b.mode := by
  rw [canStep_at hpc] at h
  rcases Option.map_eq_some_iff.1 h with ⟨q, hq, rfl⟩
  exact perform_mode hp hq

theorem OnBus.canStep (h : b.OnBus) (hstep : b.canStep por z = some b') : b'.OnBus := by
  cases hpc : b.sys.can with
  | reqConfig =>
      rw [canStep_at hpc] at hstep
      cases hstep
      exact Or.inr rfl
  | settle =>
      rw [canStep_at hpc] at hstep
      cases hstep
      exact Or.inr rfl
  | reqNormal =>
      rw [canStep_at hpc] at hstep
      cases hstep
      exact Or.inl rfl
  | _ =>
      -- `run` is not between the two writes, and does not come there.
      have hmode : b.mode = .normal := h.resolve_right fun hrec => by
        rw [hpc] at hrec
        cases hrec
      have hkeeps : b.sys.can.act.KeepsMode :=
        RunPc.keepsMode (by rw [hpc]; rintro ⟨⟩) (by rw [hpc]; rintro ⟨⟩)
      exact Or.inl ((mode_of_keepsMode rfl hkeeps hstep).trans hmode)

theorem OnBus.move (h : b.OnBus) {l : Label} (hmove : b.move por z l = some b') : b'.OnBus := by
  by_cases hl : l = .canService
  · subst hl
    exact h.canStep hmove
  · -- The others are elsewhere and do not touch `CANCTRL`.
    have hother : b'.mode = b.mode ∧ b'.sys.can = b.sys.can := by
      cases l with
      | canService => exact absurd rfl hl
      | _ =>
          simp only [Board.move] at hmove
          rcases Option.map_eq_some_iff.1 hmove with ⟨t, ht, rfl⟩
          exact ⟨rfl, Sys.can_of_move hl ht⟩
    rw [OnBus, hother.1, hother.2]
    exact h

end Board

/-! ## Runs -/

/-- The bit timing, the enabled interrupts and how RXB0 receives.  The other bits of `RXB0CTRL` are
the controller's. -/
structure Configured (row : BitTiming) (rxBufferType : RxBufferType) (r : Regs) : Prop where
  cnf1 : r CNF1 = row.cnf1
  cnf2 : r CNF2 = row.cnf2
  cnf3 : r CNF3 = row.cnf3
  inte : r CANINTE = enabled
  rxb0 : r RXB0CTRL &&& (RXM_RCV_ALL ||| BUKT_ROLLOVER) = rxb0ctrl rxBufferType

namespace Startup

variable {c : Chip} {s t : Startup}

/-- `initialInTask` has returned, and what it has set is as it was set. -/
structure Settled (c : Chip) (s : Startup) : Prop where
  running : s.Running
  onBus : s.board.OnBus
  fixed : ∀ a, Fixed a → s.board.sys.regs a = c.regs a

theorem Settled.step (h : s.Settled c) {l : Label} (hok : Lift Payloads s l)
    (hstep : Startup.step por z l s = some t) : t.Settled c := by
  cases l with
  | initialInTask =>
      rw [Startup.step, h.running.returned] at hstep
      cases hstep
  | other l =>
      rcases h.running.step hok hstep with ⟨hrunning, hsys⟩
      refine ⟨hrunning, ?_, ?_⟩
      · simp only [Startup.step] at hstep
        split at hstep
        · rcases Option.map_eq_some_iff.1 hstep with ⟨b, hmove, rfl⟩
          have hb : b.OnBus := h.onBus.move hmove
          exact hb
        · cases hstep
      · intro a ha
        rcases Option.map_eq_some_iff.1 hsys with ⟨u, hmove, heq⟩
        rw [← heq]
        exact (Sys.move_fixed ha h.running.calls h.running.writes hmove).trans (h.fixed a ha)

/-- The state in which `initialInTask` returns. -/
theorem Starting.settled (hc : Booted c) (hmode : c.mode = .normal)
    (h : s.Starting por z .configuration c) (hreturned : s.returned = true) : s.Settled c := by
  have herase := (h.fresh hreturned).board
  refine ⟨(h.handover unseen_payloads hc hreturned).1, ?_, ?_⟩
  · exact Or.inl ((congrArg Board.mode herase).trans hmode)
  · intro a ha
    exact congrFun (congrArg (fun b : Board => b.sys.regs) herase) a

/-- Everything up to the return of `initialInTask`, and after it. -/
def Setting (por : Reset) (z : Byte) (c : Chip) (s : Startup) : Prop :=
  (s.Starting por z .configuration c ∧ s.returned = false) ∨ s.Settled c

theorem Setting.step (hc : Booted c) (hmode : c.mode = .normal) (h : s.Setting por z c)
    {l : Label} (hok : Lift Payloads s l) (hstep : Startup.step por z l s = some t) :
    t.Setting por z c := by
  rcases h with ⟨hstarting, hnot⟩ | hsettled
  · cases l with
    | initialInTask =>
        have ht := hstarting.next hc.intf hstep
        cases hend : t.returned with
        | false => exact Or.inl ⟨ht, hend⟩
        | true => exact Or.inr (ht.settled hc hmode hend)
    | other l =>
        by_cases hcan : l = .canService
        · subst hcan
          exact Or.inl ⟨hstarting.canService hstep, (returned_of_other hstep).trans hnot⟩
        · rw [hstarting.step_none hnot hcan] at hstep
          cases hstep
  · exact Or.inr (hsettled.step hok hstep)

end Startup

theorem mode_initialised (por : Reset) (z : Byte) (r : Regs) (row : BitTiming)
    (rxBufferType : RxBufferType) :
    (initialised por z row rxBufferType ⟨r, .configuration, .ignore⟩).mode = .normal := by
  cases rxBufferType <;> rfl

theorem fixed_timing : ∀ a ∈ [CNF1, CNF2, CNF3], Fixed a := by
  intro a ha
  have hcases : a = CNF1 ∨ a = CNF2 ∨ a = CNF3 := by simpa using ha
  rcases hcases with rfl | rfl | rfl <;>
    exact ⟨by decide, by decide, by decide, by decide, by decide, fun n => by cases n <;> decide⟩

theorem configured_initialised (por : Reset) (z : Byte) (r : Regs) (row : BitTiming)
    (rxBufferType : RxBufferType) :
    Configured row rxBufferType
      (initialised por z row rxBufferType ⟨r, .configuration, .ignore⟩).regs := by
  have htiming : ∀ a ∈ [CNF1, CNF2, CNF3],
      (initialised por z row rxBufferType ⟨r, .configuration, .ignore⟩).regs a =
        r.writes (timing row) a := by
    intro a ha
    rw [regs_of_timing por z row rxBufferType (timing_notMem_settings rxBufferType a ha),
      if_pos rfl]
  refine ⟨htiming CNF1 (by decide), htiming CNF2 (by decide), htiming CNF3 (by decide), ?_, ?_⟩
  · rw [regs_initialised]
    cases rxBufferType <;> rfl
  · rw [Startup.rxb0ctrl_initialised]
    cases rxBufferType <;> decide

theorem Configured.congr {row : BitTiming} {rxBufferType : RxBufferType} {r r' : Regs}
    (h : Configured row rxBufferType r) (heq : ∀ a, Fixed a → r' a = r a) :
    Configured row rxBufferType r' where
  cnf1 := (heq CNF1 (fixed_timing _ (by decide))).trans h.cnf1
  cnf2 := (heq CNF2 (fixed_timing _ (by decide))).trans h.cnf2
  cnf3 := (heq CNF3 (fixed_timing _ (by decide))).trans h.cnf3
  inte := (heq CANINTE fixed_caninte).trans h.inte
  rxb0 := by rw [heq RXB0CTRL fixed_rxb0ctrl, h.rxb0]

namespace Startup

/-- From power-on: once `initialInTask` has returned, the settings are in force in every state, the
registers that are neither set nor in use are as they were found, and the controller is in normal
mode unless `run` is bringing it back to that. -/
theorem settings_kept {r : Regs} {row : BitTiming} {rxBufferType : RxBufferType}
    {ls : List Label} {s : Startup}
    (hquiet : r CANINTF &&& r CANINTE = 0#8 ∨ r CANINTF &&& enabled = 0#8)
    (htx : r TXB0CTRL = 0#8)
    (h : Run (Startup.step por z) (Lift Payloads) (start r .configuration row rxBufferType) ls s)
    (hreturned : s.returned = true) :
    Configured row rxBufferType s.board.sys.regs ∧
      (∀ a, Fixed a → a ∉ written rxBufferType → s.board.sys.regs a = r a) ∧
      (s.board.mode = .normal ∨ s.board.sys.can.recovers = true) := by
  have hc := booted_initialised por z row rxBufferType htx
  have hstart : (start r .configuration row rxBufferType).Setting por z
      (initialised por z row rxBufferType ⟨r, .configuration, .ignore⟩) :=
    Or.inl ⟨starting_start r row rxBufferType hquiet, rfl⟩
  have hsetting := h.invariant (fun s l t hs hl hstep =>
    hs.step hc (mode_initialised por z r row rxBufferType) hl hstep) hstart
  have hsettled := hsetting.resolve_left fun hstarting => by
    rw [hreturned] at hstarting
    cases hstarting.2
  refine ⟨(configured_initialised por z r row rxBufferType).congr hsettled.fixed, ?_,
    hsettled.onBus⟩
  intro a ha hwritten
  rw [hsettled.fixed a ha, regs_of_untouched _ _ _ _ hwritten]

/-- The controller is off the bus for an error, and `run` has requested configuration mode. -/
def busOffSchedule : List Label :=
  List.flatten
    [List.replicate 15 .initialInTask, [.other (.raise ERRIF 0x20#8)],
      List.replicate 6 (.other .canService)]

theorem settings_kept_busOff :
    ∃ s, Run (Startup.step resetValues 0#8) (Lift Payloads)
        (start powerOn .configuration (bitrateAddr .MHZ8 .KBPS125) .Rollover) busOffSchedule s ∧
      s.board.mode = .configuration ∧
      Configured (bitrateAddr .MHZ8 .KBPS125) .Rollover s.board.sys.regs ∧
      (∀ a, Fixed a → a ∉ written .Rollover → s.board.sys.regs a = powerOn a) ∧
      (s.board.mode = .normal ∨ s.board.sys.can.recovers = true) := by
  rcases exists_run_of_exec (Startup.step resetValues 0#8) (Lift Payloads)
      (start powerOn .configuration (bitrateAddr .MHZ8 .KBPS125) .Rollover) busOffSchedule
      (fun s => decide (s.returned = true ∧ s.board.mode = .configuration)) (by decide +kernel) with
    ⟨s, hrun, htest⟩
  rcases of_decide_eq_true htest with ⟨hreturned, hmode⟩
  exact ⟨s, hrun, hmode, settings_kept (by decide) (by decide) hrun hreturned⟩

end Startup
end Mcp2515Task
end PicoCppSdk
