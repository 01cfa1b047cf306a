import PicoCppSdk.Mcp2515Task.Move

/-!
# Wakeup — `canService` never sleeps through an interrupt

`run` polls the INT line and then waits for `_intSemaphore`, which `irqHandler` gives for a latched
edge.  A flag that rises between the poll and the wait makes an edge; an edge that the handler has
consumed has left a token.
-/

namespace PicoCppSdk
namespace Mcp2515Task

open Atomic Mcp2515 Transition

variable {s t : Sys} {l : Label}

/-! ## Who can make `canService` wait -/

/-- `canService` comes to the wait only from a poll that found the line high. -/
theorem CanMove.to_block (h : CanMove s t) (ht : t.can = .block) :
    s.intHigh = true ∧ t.regs = s.regs := by
  cases h with
  | pollHigh hpc hint => exact ⟨hint, rfl⟩
  | readIntf hpc =>
      -- No branch behind a value that was read leads to the wait.
      have hne : RunPc.goto (RunPc.fromIntf (s.regs CANINTF)) ≠ .block := by
        rw [RunPc.goto_fromIntf]
        split
        · simp
        · apply RunPc.goto_fromStamp_of (P := fun p => p ≠ .block) <;> simp
      exact absurd ht hne
  | stampStore f now hpc =>
      have hne : RunPc.goto (RunPc.fromRx0 f) ≠ .block := by
        apply RunPc.goto_fromRx0_of (P := fun p => p ≠ .block) <;> simp
      exact absurd ht hne
  | rxStore n f v hpc =>
      have hne : RunPc.goto (RunPc.afterRx n f) ≠ .block := by
        apply RunPc.goto_afterRx_of (P := fun p => p ≠ .block) n <;> simp
      exact absurd ht hne
  | txStore f v hpc =>
      have hne : RunPc.goto (RunPc.fromGive0 f) ≠ .block := by
        apply RunPc.goto_fromGive0_of (P := fun p => p ≠ .block) <;> simp
      exact absurd ht hne
  | rxGive n f hpc =>
      have hne : RunPc.goto (RunPc.afterGive n f) ≠ .block := by
        apply RunPc.goto_afterGive_of (P := fun p => p ≠ .block) n <;> simp
      exact absurd ht hne
  | clearErr eflg hpc =>
      dsimp only at ht
      split at ht <;> cases ht
  | _ => cases ht

/-! ## The invariant -/

/-- Something will still let a waiting `canService` go on. -/
def Sys.Woken (s : Sys) : Prop :=
  s.edge = true ∨ s.intSem = true

/-- A waiting `canService` finds the line high, or is woken. -/
def Sys.Alert (s : Sys) : Prop :=
  s.can = .block → s.intHigh = false → s.Woken

/-- A move of the others leaves `canService` where it is and drops no edge and no token. -/
theorem Sys.move_other (h : s.move l = some t) (hl : l ≠ .canService) :
    t.can = s.can ∧ (s.Woken → t.Woken) := by
  cases l with
  | canService => exact absurd rfl hl
  | reader =>
      cases readerMove_of_readerStep h <;> exact ⟨rfl, id⟩
  | sender =>
      cases senderMove_of_senderStep h <;> exact ⟨rfl, id⟩
  | receive buf =>
      rcases Sys.eq_of_receive h with ⟨-, rfl⟩
      exact ⟨rfl, id⟩
  | submit c =>
      rcases Sys.eq_of_submit h with ⟨-, rfl⟩
      exact ⟨rfl, id⟩
  | irqHandler now =>
      rcases Sys.eq_of_irqHandler h with ⟨-, rfl⟩
      exact ⟨rfl, fun _ => Or.inr rfl⟩
  | arrive img =>
      have ht : s.arrive img = t := Option.some.inj h
      rw [← ht, Sys.arrive]
      split <;> exact ⟨rfl, id⟩
  | complete =>
      simp only [Sys.move, Sys.complete] at h
      split at h
      · exact Option.some.inj h ▸ ⟨rfl, id⟩
      · cases h
  | raise flags eflg => exact Option.some.inj h ▸ ⟨rfl, id⟩

theorem Sys.Alert.step (hs : s.Alert) (h : Sys.step l s = some t) : t.Alert := by
  rcases Option.map_eq_some_iff.1 h with ⟨u, hmove, rfl⟩
  intro hblock hlow
  have hulow : u.intHigh = false := hlow
  cases hhigh : s.intHigh with
  | true =>
      -- The line has fallen in this step, so the step has latched an edge.
      exact Or.inl (by simp [Sys.latch, hhigh, hulow])
  | false =>
      have hwoken : u.Woken := by
        by_cases hl : l = .canService
        · subst hl
          have hpoll := (canMove_of_canStep hmove).to_block hblock
          exact absurd (hpoll.1.symm.trans hhigh) (by decide)
        · have hother := Sys.move_other hmove hl
          exact hother.2 (hs (hother.1 ▸ hblock) hhigh)
      rcases hwoken with hedge | hsem
      · exact Or.inl (by simp [Sys.latch, hedge])
      · exact Or.inr hsem

/-- From any state with the line high, no run leads to a state in which `canService` waits while the
line is low, no edge is outstanding and the semaphore is empty. -/
theorem no_lost_wakeup (hinit : s.intHigh = true) (h : Reachable Sys.step s t) :
    ¬ (t.can = .block ∧ t.intHigh = false ∧ t.edge = false ∧ t.intSem = false) := by
  have halert : t.Alert := by
    apply h.invariant (fun _ _ _ hI hstep => hI.step hstep)
    intro _ hlow
    exact absurd (hinit.symm.trans hlow) (by decide)
  rintro ⟨hblock, hlow, hedge, hsem⟩
  rcases halert hblock hlow with hwoken | hwoken
  · exact absurd (hwoken.symm.trans hedge) (by decide)
  · exact absurd (hwoken.symm.trans hsem) (by decide)

/-- A frame that arrives between the poll and the wait. -/
theorem no_lost_wakeup_after_poll :
    ∃ t, Reachable Sys.step (Sys.boot fun _ => 0) t ∧ (t.can = .block ∧ t.intHigh = false) ∧
      ¬ (t.can = .block ∧ t.intHigh = false ∧ t.edge = false ∧ t.intSem = false) := by
  rcases exists_run_of_exec Sys.step Free (Sys.boot fun _ => 0)
    [.canService, .canService, .arrive ⟨0, 0, 0, 0, 0, fun _ => 0⟩]
    (fun t => t.can = .block ∧ t.intHigh = false) (by decide) with ⟨t, hrun, hP⟩
  exact ⟨t, ⟨_, hrun⟩, of_decide_eq_true hP, no_lost_wakeup (by decide) ⟨_, hrun⟩⟩

end Mcp2515Task
end PicoCppSdk
