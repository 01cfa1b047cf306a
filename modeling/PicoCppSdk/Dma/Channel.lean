import Mathlib.Data.Fintype.Basic
import PicoCppSdk.Foundation.Transition

/-!
# Channel — `DMA::enableDma` and the callback table

The channels are the indices below `n` (`NUM_DMA_CHANNELS`).  `enableDma` claims one of them and, if
it is given a callback, enters it in `callbackList` and routes the channel to interrupt line 0 or 1
by its index; `resetCallbackList` clears the table and leaves the rest alone.
-/

namespace PicoCppSdk
namespace Dma

open Transition

/-! ## State -/

inductive Line where
  | irq0
  | irq1
  deriving DecidableEq, Repr

/-- The functions that `irq_set_exclusive_handler` is given. -/
inductive Handler where
  | dma_handler0
  | dma_handler1
  deriving DecidableEq, Repr

/-- `Callback_t`; a null pointer is `none`. -/
structure Callback (Fn Ptr : Type) where
  callback : Option Fn
  param : Option Ptr

structure Sys (n : Nat) (Fn Ptr : Type) where
  claimed : Finset (Fin n)
  callbackList : Fin n → Callback Fn Ptr
  /-- The channels whose interrupt is enabled on a line. -/
  enabled : Line → Finset (Fin n)
  handler : Line → Option Handler

variable {n : Nat} {Fn Ptr : Type}

/-- `dmaIrq1channelStart` -/
def dmaIrq1channelStart (n : Nat) : Nat := n / 2

/-- Where the interrupt of channel `c` goes. -/
def lineOf (c : Fin n) : Line :=
  if c.val < dmaIrq1channelStart n then .irq0 else .irq1

/-- The handler that `enableDma` installs for a line. -/
def Line.handler : Line → Handler
  | .irq0 => .dma_handler0
  | .irq1 => .dma_handler1

namespace Sys

/-- Zero-initialised, as static data and after a reset of the chip. -/
def boot : Sys n Fn Ptr where
  claimed := ∅
  callbackList _ := ⟨none, none⟩
  enabled _ := ∅
  handler _ := none

/-! ## Calls -/

def resetCallbackList (s : Sys n Fn Ptr) : Sys n Fn Ptr :=
  { s with callbackList := fun _ => ⟨none, none⟩ }

/-- `enableDma(callback, param)` when `dma_claim_unused_channel` returns `channel`; it panics, and
`none` stands for that here, if the channel is not free. -/
def enableDma (s : Sys n Fn Ptr) (callback : Option Fn) (param : Option Ptr) (channel : Fin n) :
    Option (Sys n Fn Ptr) :=
  if channel ∈ s.claimed then
    none
  else
    let s := { s with claimed := insert channel s.claimed }
    match callback with
    -- Without a callback the table keeps what an earlier owner of the channel has left.
    | none => some s
    | some f =>
        let s :=
          { s with callbackList := Function.update s.callbackList channel ⟨some f, param⟩ }
        if channel.val < dmaIrq1channelStart n then
          some { s with
            enabled := Function.update s.enabled .irq0 (insert channel (s.enabled .irq0))
            handler := Function.update s.handler .irq0 (some .dma_handler0) }
        else
          some { s with
            enabled := Function.update s.enabled .irq1 (insert channel (s.enabled .irq1))
            handler := Function.update s.handler .irq1 (some .dma_handler1) }

/-- A call, with the channel that was free for it. -/
inductive Call (n : Nat) (Fn Ptr : Type) where
  | enableDma (callback : Option Fn) (param : Option Ptr) (channel : Fin n)
  | resetCallbackList

def step : Call n Fn Ptr → Sys n Fn Ptr → Option (Sys n Fn Ptr)
  | .enableDma callback param channel, s => s.enableDma callback param channel
  | .resetCallbackList, s => some s.resetCallbackList

/-! ## Routing -/

/-- A channel is enabled only on the line of its half, and a line with a channel has its handler. -/
structure Routed (s : Sys n Fn Ptr) : Prop where
  line : ∀ L, ∀ c ∈ s.enabled L, lineOf c = L
  handler : ∀ L h, s.handler L = some h → h = L.handler

theorem enableDma_cases {s t : Sys n Fn Ptr} {callback : Option Fn} {param : Option Ptr}
    {c : Fin n} (h : s.enableDma callback param c = some t) :
    (t.enabled = s.enabled ∧ t.handler = s.handler) ∨
      (t.enabled = Function.update s.enabled (lineOf c) (insert c (s.enabled (lineOf c))) ∧
        t.handler = Function.update s.handler (lineOf c) (some (lineOf c).handler)) := by
  simp only [enableDma] at h
  split at h
  · cases h
  · cases callback with
    | none =>
        cases h
        exact Or.inl ⟨rfl, rfl⟩
    | some f =>
        refine Or.inr ?_
        dsimp only at h
        split at h
        · rename_i hc
          cases h
          simp [lineOf, hc, Line.handler]
        · rename_i hc
          cases h
          simp [lineOf, hc, Line.handler]

theorem Routed.step {s t : Sys n Fn Ptr} {call : Call n Fn Ptr} (hs : s.Routed)
    (h : Sys.step call s = some t) : t.Routed := by
  cases call with
  | resetCallbackList =>
      cases h
      exact ⟨hs.line, hs.handler⟩
  | enableDma callback param c =>
      rcases enableDma_cases h with ⟨henabled, hhandler⟩ | ⟨henabled, hhandler⟩
      -- Either the call has claimed no channel, or it has set one up on the line of its half.
      · exact ⟨by rw [henabled]; exact hs.line, by rw [hhandler]; exact hs.handler⟩
      · refine ⟨fun L d hd => ?_, fun L k hk => ?_⟩
        · rw [henabled] at hd
          by_cases hL : L = lineOf c
          · subst hL
            rw [Function.update_self, Finset.mem_insert] at hd
            rcases hd with rfl | hd
            · rfl
            · exact hs.line _ d hd
          · rw [Function.update_of_ne hL] at hd
            exact hs.line L d hd
        · rw [hhandler] at hk
          by_cases hL : L = lineOf c
          · subst hL
            rw [Function.update_self] at hk
            exact (Option.some.inj hk).symm
          · rw [Function.update_of_ne hL] at hk
            exact hs.handler L k hk

theorem routed_of_reachable {s : Sys n Fn Ptr} (h : Reachable step boot s) : s.Routed := by
  refine h.invariant (fun _ _ _ hs hstep => hs.step hstep) ⟨?_, ?_⟩
  · intro L c hc
    simp [boot] at hc
  · intro L k hk
    cases hk

end Sys
end Dma
end PicoCppSdk
