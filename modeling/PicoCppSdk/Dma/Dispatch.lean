import Mathlib.Data.List.FinRange
import PicoCppSdk.Dma.Channel
import PicoCppSdk.Foundation.Program

/-!
# Dispatch — the two interrupt handlers

Both handlers ask for the status of line 0 and acknowledge on line 0; they differ in the channels
they go through.  So `dma_handler0` serves the channels of its line that have a callback, and
`dma_handler1` serves none of its own.
-/

namespace PicoCppSdk
namespace Dma

open Atomic Transition

variable {n : Nat} {Fn Ptr : Type}

/-! ## The handlers -/

inductive Act (n : Nat) (Fn Ptr : Type) where
  /-- `dma_channel_get_irq0_status(c)` and its namesake for line 1 -/
  | getStatus (L : Line) (c : Fin n)
  /-- `dma_channel_acknowledge_irq0(c)` and its namesake for line 1 -/
  | acknowledge (L : Line) (c : Fin n)
  | call (callback : Fn) (param : Option Ptr)

abbrev Act.Ans : Act n Fn Ptr → Type
  | .getStatus _ _ => Bool
  | _ => Unit

abbrev Isr (n : Nat) (Fn Ptr α : Type) := Prog (Act n Fn Ptr) Act.Ans α

def getStatus (L : Line) (c : Fin n) : Isr n Fn Ptr Bool := .act (Act.getStatus L c) .ret

def acknowledge (L : Line) (c : Fin n) : Isr n Fn Ptr Unit := .act (Act.acknowledge L c) .ret

def call (callback : Fn) (param : Option Ptr) : Isr n Fn Ptr Unit :=
  .act (Act.call callback param) .ret

/-- The body of the loops, the same in both handlers. -/
def serve (table : Fin n → Callback Fn Ptr) (c : Fin n) : Isr n Fn Ptr Unit := do
  -- Line 0, for whichever line the handler runs.
  let status ← getStatus .irq0 c
  match (table c).callback with
  | some f =>
      Prog.when (status = true) do
        call f (table c).param
        acknowledge .irq0 c
  -- A pending channel without a callback is not acknowledged.
  | none => pure ()

/-- The loop over `channels`. -/
def serveAll (table : Fin n → Callback Fn Ptr) : List (Fin n) → Isr n Fn Ptr Unit
  | [] => pure ()
  | c :: channels => do
      serve table c
      serveAll table channels

def dma_handler0 (table : Fin n → Callback Fn Ptr) : Isr n Fn Ptr Unit :=
  serveAll table ((List.finRange n).filter fun c => c.val < dmaIrq1channelStart n)

def dma_handler1 (table : Fin n → Callback Fn Ptr) : Isr n Fn Ptr Unit :=
  serveAll table ((List.finRange n).filter fun c => dmaIrq1channelStart n ≤ c.val)

def Handler.code : Handler → (Fin n → Callback Fn Ptr) → Isr n Fn Ptr Unit
  | .dma_handler0 => Dma.dma_handler0
  | .dma_handler1 => Dma.dma_handler1

/-! ## A run of a handler -/

/-- The masked pending bits of the two lines, and the calls made so far. -/
structure Irq (n : Nat) (Fn Ptr : Type) where
  pending : Line → Finset (Fin n)
  calls : List (Fn × Option Ptr)

namespace Irq

def perform : (a : Act n Fn Ptr) → Irq n Fn Ptr → a.Ans × Irq n Fn Ptr
  | .getStatus L c, s => (decide (c ∈ s.pending L), s)
  | .acknowledge L c, s =>
      ((), { s with pending := Function.update s.pending L ((s.pending L).erase c) })
  | .call f p, s => ((), { s with calls := s.calls ++ [(f, p)] })

end Irq

/-- The call that is due for a channel, if it has a callback. -/
def registered (table : Fin n → Callback Fn Ptr) (c : Fin n) : Option (Fn × Option Ptr) :=
  (table c).callback.map fun f => (f, (table c).param)

section Run

variable (table : Fin n → Callback Fn Ptr)

/-- The pending channels that a loop over `cs` leaves pending. -/
def unserved (cs : List (Fin n)) (pending : Finset (Fin n)) : Finset (Fin n) :=
  pending.filter fun c => ¬ (c ∈ cs ∧ (table c).callback.isSome)

/-- The calls that a loop over `cs` makes. -/
def due (cs : List (Fin n)) (pending : Finset (Fin n)) : List (Fn × Option Ptr) :=
  (cs.filter (· ∈ pending)).filterMap (registered table)

variable {table} {c : Fin n} {cs : List (Fin n)} {pending : Finset (Fin n)}

theorem unserved_erase (h : (table c).callback.isSome) :
    unserved table cs (pending.erase c) = unserved table (c :: cs) pending := by
  ext d
  by_cases hd : d = c
  · subst hd
    have hsome : (table d).callback ≠ none := Option.isSome_iff_ne_none.1 h
    simp [unserved, hsome]
  · simp [unserved, hd]

theorem unserved_cons_of_not_due (h : c ∉ pending ∨ (table c).callback = none) :
    unserved table cs pending = unserved table (c :: cs) pending := by
  ext d
  by_cases hd : d = c
  · subst hd
    rcases h with h | h <;> simp [unserved, h]
  · simp [unserved, hd]

theorem due_erase (hc : c ∉ cs) : due table cs (pending.erase c) = due table cs pending := by
  have hfilter : cs.filter (· ∈ pending.erase c) = cs.filter (· ∈ pending) := by
    refine List.filter_congr fun d hd => ?_
    have hdc : d ≠ c := fun h => hc (h ▸ hd)
    simp [hdc]
  rw [due, hfilter, due]

theorem due_cons_of_due {f : Fn} (hc : c ∈ pending) (hf : (table c).callback = some f) :
    due table (c :: cs) pending = (f, (table c).param) :: due table cs pending := by
  simp [due, hc, registered, hf]

theorem due_cons_of_not_due (h : c ∉ pending ∨ (table c).callback = none) :
    due table (c :: cs) pending = due table cs pending := by
  rcases h with h | h
  · simp [due, h]
  · by_cases hc : c ∈ pending <;> simp [due, registered, h, hc]

variable (table) (s : Irq n Fn Ptr)

theorem serve_run_of_due {f : Fn} (hc : c ∈ s.pending .irq0)
    (hf : (table c).callback = some f) :
    ((serve table c).run Irq.perform s).2 =
      { pending := Function.update s.pending .irq0 ((s.pending .irq0).erase c)
        calls := s.calls ++ [(f, (table c).param)] } := by
  simp [serve, getStatus, call, acknowledge, Irq.perform, hc, hf]

theorem serve_run_of_not_due (h : c ∉ s.pending .irq0 ∨ (table c).callback = none) :
    ((serve table c).run Irq.perform s).2 = s := by
  cases hf : (table c).callback with
  | none => simp [serve, getStatus, Irq.perform, hf]
  | some f =>
      have hc : c ∉ s.pending .irq0 := h.resolve_right (by simp [hf])
      simp [serve, getStatus, Irq.perform, hf, hc]

/-- The loop calls and acknowledges, in order, the channels that are pending on line 0 and have a
callback; it leaves every other bit as it is. -/
theorem serveAll_run (cs : List (Fin n)) (hcs : cs.Nodup) :
    ((serveAll table cs).run Irq.perform s).2 =
      { pending := Function.update s.pending .irq0 (unserved table cs (s.pending .irq0))
        calls := s.calls ++ due table cs (s.pending .irq0) } := by
  induction cs generalizing s with
  | nil => simp [serveAll, unserved, due]
  | cons c cs ih =>
      rcases List.nodup_cons.1 hcs with ⟨hc, hcs⟩
      simp only [serveAll, Prog.run_bind]
      rw [ih _ hcs]
      by_cases hdue : c ∉ s.pending .irq0 ∨ (table c).callback = none
      · rw [serve_run_of_not_due table s hdue, unserved_cons_of_not_due hdue,
          due_cons_of_not_due hdue]
      · rcases not_or.1 hdue with ⟨hpending, hsome⟩
        rcases Option.ne_none_iff_exists'.1 hsome with ⟨f, hf⟩
        rw [serve_run_of_due table s (not_not.1 hpending) hf]
        simp only [Function.update_self, Function.update_idem]
        rw [unserved_erase (by rw [hf]; rfl), due_erase hc,
          due_cons_of_due (not_not.1 hpending) hf, List.append_assoc, List.singleton_append]

end Run

/-! ## The halves -/

/-- The channels of a line, as its handler goes through them. -/
def Line.channels (n : Nat) : Line → List (Fin n)
  | .irq0 => (List.finRange n).filter fun c => c.val < dmaIrq1channelStart n
  | .irq1 => (List.finRange n).filter fun c => dmaIrq1channelStart n ≤ c.val

theorem Line.nodup_channels (L : Line) : (L.channels n).Nodup := by
  cases L <;> exact (List.nodup_finRange n).filter _

theorem Line.mem_channels {L : Line} {c : Fin n} : c ∈ L.channels n ↔ lineOf c = L := by
  by_cases hc : c.val < dmaIrq1channelStart n
  · cases L <;> simp [Line.channels, lineOf, hc]
  · cases L <;> simp [Line.channels, lineOf, hc, Nat.le_of_not_lt hc]

theorem Handler.code_eq (L : Line) (table : Fin n → Callback Fn Ptr) :
    L.handler.code table = serveAll table (L.channels n) := by
  cases L <;> rfl

/-! ## Dispatch -/

/-- The handler of line `L` has called the registered callbacks of the pending channels, each once,
and no others; it has cleared the pending bits of the line and left those of the other line. -/
structure Dispatched (table : Fin n → Callback Fn Ptr) (L : Line) (before after : Irq n Fn Ptr) :
    Prop where
  calls : ∃ made, after.calls = before.calls ++ made ∧
    (made : Multiset (Fn × Option Ptr)) = (before.pending L).val.filterMap (registered table)
  cleared : after.pending L = ∅
  others : ∀ M, M ≠ L → after.pending M = before.pending M

variable {table : Fin n → Callback Fn Ptr} {before : Irq n Fn Ptr}

/-- `dma_handler1` looks for the channels of the upper half on line 0, where they never are. -/
theorem dma_handler1_run (hline : ∀ M, ∀ c ∈ before.pending M, lineOf c = M) :
    ((dma_handler1 table).run Irq.perform before).2 = before := by
  have hnone : ∀ c ∈ Line.irq1.channels n, c ∉ before.pending .irq0 := by
    intro c hc hpending
    have h0 := hline .irq0 c hpending
    rw [Line.mem_channels.1 hc] at h0
    cases h0
  have hrun := serveAll_run table before (Line.irq1.channels n) Line.irq1.nodup_channels
  have hcalls : due table (Line.irq1.channels n) (before.pending .irq0) = [] := by
    have hfilter : (Line.irq1.channels n).filter (· ∈ before.pending .irq0) = [] := by
      refine List.filter_eq_nil_iff.2 fun c hc => ?_
      simpa using hnone c hc
    rw [due, hfilter, List.filterMap_nil]
  have hkept : unserved table (Line.irq1.channels n) (before.pending .irq0) =
      before.pending .irq0 := by
    refine Finset.filter_true_of_mem fun c hc hin => ?_
    exact hnone c hin.1 hc
  rw [hcalls, hkept, Function.update_eq_self, List.append_nil] at hrun
  exact hrun

theorem dma_handler0_run_iff (hline : ∀ c ∈ before.pending .irq0, lineOf c = .irq0) :
    Dispatched table .irq0 before ((dma_handler0 table).run Irq.perform before).2 ↔
      ∀ c ∈ before.pending .irq0, (table c).callback.isSome := by
  have hrun := serveAll_run table before (Line.irq0.channels n) Line.irq0.nodup_channels
  have hunserved : unserved table (Line.irq0.channels n) (before.pending .irq0) = ∅ ↔
      ∀ c ∈ before.pending .irq0, (table c).callback.isSome := by
    rw [unserved, Finset.filter_eq_empty_iff]
    refine forall₂_congr fun c hc => not_not.trans (and_iff_right ?_)
    exact Line.mem_channels.2 (hline c hc)
  rw [← hunserved, show dma_handler0 table = serveAll table (Line.irq0.channels n) from rfl, hrun]
  constructor
  · intro hdone
    have hcleared := hdone.cleared
    -- What has no callback stays pending, and nothing else does.
    dsimp only at hcleared
    rwa [Function.update_self] at hcleared
  · intro hempty
    refine ⟨⟨_, rfl, ?_⟩, ?_, fun M hM => Function.update_of_ne hM _ _⟩
    · have hpending : (((Line.irq0.channels n).filter (· ∈ before.pending .irq0) : List (Fin n)) :
          Multiset (Fin n)) = (before.pending .irq0).val := by
        refine (Multiset.Nodup.ext ?_ (before.pending .irq0).nodup).2 fun c => ?_
        · exact Line.irq0.nodup_channels.filter _
        · have hmem : c ∈ before.pending .irq0 → c ∈ Line.irq0.channels n :=
            fun hc => Line.mem_channels.2 (hline c hc)
          simpa using hmem
      rw [← hpending, Multiset.filterMap_coe, due]
    · dsimp only
      rw [Function.update_self, hempty]

/-- On any table that calls of `enableDma` and `resetCallbackList` lead to, the handler of a line
dispatches the pending channels of the line exactly if there are none, or if it is the handler of
line 0 and all of them still have a callback. -/
theorem dispatched_iff {s : Sys n Fn Ptr} (hs : Reachable Sys.step Sys.boot s)
    (hpending : ∀ M, before.pending M ⊆ s.enabled M) {L : Line} {h : Handler}
    (hh : s.handler L = some h) :
    Dispatched s.callbackList L before ((h.code s.callbackList).run Irq.perform before).2 ↔
      before.pending L = ∅ ∨
        L = .irq0 ∧ ∀ c ∈ before.pending L, (s.callbackList c).callback.isSome := by
  have hrouted := Sys.routed_of_reachable hs
  have hline : ∀ M, ∀ c ∈ before.pending M, lineOf c = M :=
    fun M c hc => hrouted.line M c (hpending M hc)
  rw [hrouted.handler L h hh]
  cases L with
  | irq0 =>
      refine (dma_handler0_run_iff (hline .irq0)).trans ⟨fun hall => Or.inr ⟨rfl, hall⟩, ?_⟩
      rintro (hempty | ⟨_, hall⟩) c hc
      · rw [hempty] at hc
        exact absurd hc (Finset.notMem_empty c)
      · exact hall c hc
  | irq1 =>
      -- The handler of line 1 does nothing, which is right only where nothing is pending.
      have hrun : ((Line.irq1.handler.code s.callbackList).run Irq.perform before).2 = before :=
        dma_handler1_run hline
      rw [hrun]
      constructor
      · intro hdone
        exact Or.inl hdone.cleared
      · rintro (hempty | ⟨habsurd, _⟩)
        · refine ⟨⟨[], (List.append_nil _).symm, ?_⟩, hempty, fun M _ => rfl⟩
          rw [hempty]
          rfl
        · cases habsurd

/-! ## Seven claims on a chip with twelve channels -/

/-- The block of channel `c` has completed. -/
def completed (c : Fin n) : Irq n Fn Ptr where
  pending := Function.update (fun _ => ∅) (lineOf c) {c}
  calls := []

/-- The calls that claim the channels 0 to 6, in this order. -/
def claims : List (Sys.Call 12 Unit Unit) :=
  [0, 1, 2, 3, 4, 5, 6].map (.enableDma (some ()) none)

theorem exists_claimed : ∃ s : Sys 12 Unit Unit, Reachable Sys.step Sys.boot s ∧
    s.enabled .irq0 = {0, 1, 2, 3, 4, 5} ∧ s.enabled .irq1 = {6} ∧
      ∀ L, s.handler L = some L.handler := by
  rcases exists_run_of_exec Sys.step Free Sys.boot claims
    (fun s => s.enabled .irq0 = {0, 1, 2, 3, 4, 5} ∧ s.enabled .irq1 = {6} ∧
      s.handler .irq0 = some .dma_handler0 ∧ s.handler .irq1 = some .dma_handler1)
    (by decide +kernel) with ⟨s, hrun, hP⟩
  rcases of_decide_eq_true hP with ⟨h0, h1, hh0, hh1⟩
  exact ⟨s, ⟨_, hrun⟩, h0, h1, fun L => by cases L <;> assumption⟩

theorem dispatched_iff_channel5 : ∃ s : Sys 12 Unit Unit, Reachable Sys.step Sys.boot s ∧
    (Dispatched s.callbackList .irq0 (completed 5)
        ((Handler.dma_handler0.code s.callbackList).run Irq.perform (completed 5)).2 ↔
      (completed 5 : Irq 12 Unit Unit).pending .irq0 = ∅ ∨
        Line.irq0 = .irq0 ∧ ∀ c ∈ (completed 5 : Irq 12 Unit Unit).pending .irq0,
          (s.callbackList c).callback.isSome) := by
  rcases exists_claimed with ⟨s, hs, h0, h1, hh⟩
  refine ⟨s, hs, dispatched_iff hs ?_ (hh .irq0)⟩
  intro M
  cases M
  · rw [h0]
    decide
  · rw [h1]
    decide

/-- The seventh channel completes, and `dma_handler1` leaves its interrupt pending. -/
theorem not_dispatched : ¬ ∀ (s : Sys 12 Unit Unit) (before : Irq 12 Unit Unit) (L : Line)
    (h : Handler), Reachable Sys.step Sys.boot s → (∀ M, before.pending M ⊆ s.enabled M) →
      s.handler L = some h →
        Dispatched s.callbackList L before
          ((h.code s.callbackList).run Irq.perform before).2 := by
  intro hclaim
  rcases exists_claimed with ⟨s, hs, h0, h1, hh⟩
  have hpending : ∀ M, (completed 6 : Irq 12 Unit Unit).pending M ⊆ s.enabled M := by
    intro M
    cases M
    · rw [h0]
      decide
    · rw [h1]
      decide
  have hdone := hclaim s (completed 6) .irq1 .dma_handler1 hs hpending (hh .irq1)
  have hrun : ((Handler.dma_handler1.code s.callbackList).run Irq.perform (completed 6)).2 =
      completed 6 := by
    refine dma_handler1_run fun M c hc => ?_
    exact (Sys.routed_of_reachable hs).line M c (hpending M hc)
  rw [hrun] at hdone
  exact absurd hdone.cleared (by decide)

end Dma
end PicoCppSdk
