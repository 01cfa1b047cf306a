import PicoCppSdk.Spi.Stage

/-!
# Return — which DMA transfers come to their end

On one core all calls return, under every timing, exactly if both channels belong to `dma_handler0`.
On two cores a completion that the acknowledge swallows is waited for in vain, and as long as there
is none the calls can all return.
-/

namespace PicoCppSdk
namespace Spi
namespace Interrupts

open Atomic Transition
open Completion (Chan)
open Dma (Callback Irq IsrPc Line lineOf)

variable {n : Nat} (pdMsToTicks : BitVec 32 → BitVec 32) (S : Setup n) (core : Core)

/-! ## What has been returned -/

/-- Each return has both blocks of its call behind it. -/
def Genuine : List Completion.Event → Prop
  | [] => True
  | .returned k _ :: es => (∀ d, .finished d k ∈ es) ∧ Genuine es
  | .finished _ _ :: es => Genuine es

/-- The returns of a history, the last one first. -/
def returns : List Completion.Event → List (Nat × BitVec 16)
  | [] => []
  | .returned k size :: es => (k, size) :: returns es
  | .finished _ _ :: es => returns es

/-- Calls with their numbers from `k` on, and what each has to return. -/
def numbered : Nat → List Completion.Call → List (Nat × BitVec 16)
  | _, [] => []
  | k, c :: cs => (k, c.size) :: numbered (k + 1) cs

/-- All of `calls` have returned, in their order, each with its size and after its own blocks. -/
structure Served (calls : List Completion.Call) (u : Completion.Sys) : Prop where
  pc : u.pc = none
  returned : (returns u.history).reverse = numbered 1 calls
  genuine : Genuine u.history

/-- The calls that have returned, the one that is open, and those to come. -/
def Accounts (calls : List Completion.Call) (u : Completion.Sys) : Prop :=
  (returns u.history).reverse ++ (u.pc.map fun q => (u.index, q.call.size)).toList ++
    numbered (u.index + 1) u.calls = numbered 1 calls

/-- The history of a transfer in its second wait. -/
structure Honest (u : Completion.Sys) : Prop where
  genuine : Genuine u.history
  taken : ∀ c, u.pc = some (.take .rx c) → .finished .tx u.index ∈ u.history

section Accounts

variable {pdMsToTicks} {calls : List Completion.Call} {u v : Completion.Sys}

theorem Accounts.boot (calls : List Completion.Call) : Accounts calls (.boot calls) := rfl

theorem Accounts.served (h : Accounts calls u) (hgenuine : Genuine u.history) (hpc : u.pc = none)
    (hcalls : u.calls = []) : Served calls u := by
  refine ⟨hpc, ?_, hgenuine⟩
  simpa [Accounts, hpc, hcalls, numbered] using h

theorem Accounts.taskMove (h : Accounts calls u) (hmove : TaskMove pdMsToTicks u v) :
    Accounts calls v := by
  have hsame : ∀ (q q' : Completion.Pc) (w : Completion.Sys), u.pc = some q → w.pc = some q' →
      q'.call = q.call → w.history = u.history → w.index = u.index → w.calls = u.calls →
        Accounts calls w := by
    intro q q' w hq hq' hcall hhistory hindex hcalls
    rw [Accounts, hhistory, hindex, hcalls, hq', Option.map_some, hcall]
    rwa [Accounts, hq, Option.map_some] at h
  -- What the return of the call in `rx` adds is what its control point counted for.
  have hreturn : ∀ (c : Completion.Call) (w : Completion.Sys), u.pc = some (.take .rx c) →
      w.pc = none → w.history = .returned u.index c.size :: u.history → w.index = u.index →
        w.calls = u.calls → Accounts calls w := by
    intro c w hq hq' hhistory hindex hcalls
    rw [Accounts, hhistory, hindex, hcalls, hq', returns, List.reverse_cons]
    rw [Accounts, hq] at h
    simpa [Completion.Pc.call] using h
  cases hmove with
  | begin c cs hpc hcalls => simpa [Accounts, hpc, hcalls, numbered, Completion.Pc.call] using h
  | dmaWrite c hpc => exact hsame _ (.dmaRead c) _ hpc rfl rfl rfl rfl rfl
  | dmaRead c hpc => exact hsame _ (.dmaStart c) _ hpc rfl rfl rfl rfl rfl
  | dmaStart c hpc => exact hsame _ (.take .tx c) _ hpc rfl rfl rfl rfl rfl
  | take d c hpc hsem =>
      cases d with
      | tx => exact hsame _ (.take .rx c) _ hpc rfl rfl rfl rfl rfl
      | rx => exact hreturn c _ hpc rfl rfl rfl rfl
  | giveUp d c hpc hexpired =>
      cases d with
      | tx => exact hsame _ (.take .rx c) _ hpc rfl rfl rfl rfl rfl
      | rx => exact hreturn c _ hpc rfl rfl rfl rfl

end Accounts

/-! ## The invariant -/

/-- The channels are at stages of `Q`, and no other channel is pending. -/
structure Inv (Q : Stage → Bool) (s : Sys n) : Prop where
  stages : ∀ d, ∃ p, s.At S d p ∧ Q p = true
  pending : ∀ L, ∀ c ∈ s.irq.pending L, L = .irq0 ∧ ∃ d, c = S.channel d
  callee : ∀ f c cs, s.isr = some (.call f c cs) → f = .damCallback ∧ ∃ d, c = S.channel d
  patient : Patient pdMsToTicks s.spi
  honest : Honest s.spi

section Invariant

variable {pdMsToTicks S core} {Q : Stage → Bool} {s t : Sys n} {u : Completion.Sys}

theorem Patient.taskMove {v : Completion.Sys} (h : Patient pdMsToTicks u)
    (hmove : TaskMove pdMsToTicks u v) : Patient pdMsToTicks v := by
  have hgoes : ∀ (q q' : Completion.Pc), u.pc = some q → q'.call = q.call →
      ∀ r, some q' = some r → r.call.Patient pdMsToTicks := by
    rintro q q' hq hcall r ⟨⟩
    exact hcall ▸ h.current q hq
  cases hmove with
  | begin c cs hpc hcalls =>
      refine ⟨fun c' hc' => h.calls c' (hcalls ▸ List.mem_cons_of_mem c hc'), ?_⟩
      rintro q ⟨⟩
      exact h.calls c (hcalls ▸ List.mem_cons_self)
  | dmaWrite c hpc => exact ⟨h.calls, hgoes _ _ hpc rfl⟩
  | dmaRead c hpc => exact ⟨h.calls, hgoes _ _ hpc rfl⟩
  | dmaStart c hpc => exact ⟨h.calls, hgoes _ _ hpc rfl⟩
  | take d c hpc hsem =>
      cases d with
      | tx => exact ⟨h.calls, hgoes _ _ hpc rfl⟩
      | rx => exact ⟨h.calls, fun q hq => by cases hq⟩
  | giveUp d c hpc hexpired =>
      cases d with
      | tx => exact ⟨h.calls, hgoes _ _ hpc rfl⟩
      | rx => exact ⟨h.calls, fun q hq => by cases hq⟩

/-- A channel whose semaphore is taken has finished the block of the call. -/
theorem Inv.finished (h : Inv pdMsToTicks S Q s) {d : Chan} (hsem : (s.spi.chan d).sem = true) :
    .finished d s.spi.index ∈ s.spi.history := by
  rcases h.stages d with ⟨p, hp, -⟩
  have hgiven : p.sem = true := hp.sem ▸ hsem
  cases p with
  | answered => exact hp.finished rfl rfl
  | done => exact hp.finished rfl rfl
  | _ => cases hgiven

theorem Inv.honest_taskMove (h : Inv pdMsToTicks S Q s) (hmove : TaskMove pdMsToTicks s.spi u) :
    Honest u := by
  cases hmove with
  | take d c hpc hsem =>
      have hdone := h.finished hsem
      cases d with
      | tx => exact ⟨h.honest.genuine, fun c' _ => hdone⟩
      | rx =>
          refine ⟨⟨?_, h.honest.genuine⟩, fun c' hc' => by cases hc'⟩
          intro d
          cases d with
          | tx => exact h.honest.taken c hpc
          | rx => exact hdone
  | giveUp d c hpc hexpired =>
      have hpatient : c.Patient pdMsToTicks := h.patient.current _ hpc
      cases hpatient.not_expired.symm.trans hexpired
  | _ => exact ⟨h.honest.genuine, fun c' hc' => by cases hc'⟩

/-- Behind the status of a channel. -/
theorem fromStatus_cases (table : Fin n → Callback Callee Param) (c : Fin n) (cs : List (Fin n))
    (pending : Bool) :
    (∃ f, (table c).callback = some f ∧ pending = true ∧
      IsrPc.fromStatus table c cs pending = .inl (.call f c cs)) ∨
    (((table c).callback = none ∨ pending = false) ∧
      IsrPc.fromStatus table c cs pending = IsrPc.fromLoop cs) := by
  simp only [IsrPc.fromStatus]
  cases (table c).callback with
  | none => exact Or.inr ⟨Or.inl rfl, rfl⟩
  | some f =>
      cases pending with
      | true => exact Or.inl ⟨f, rfl, rfl, rfl⟩
      | false => exact Or.inr ⟨Or.inr rfl, rfl⟩

theorem fromLoop_ne_call {f : Callee} {c : Fin n} {cs ds : List (Fin n)} :
    IsrPc.entered (IsrPc.fromLoop ds) ≠ some (.call f c cs) := by
  cases ds with
  | nil => exact fun h => by cases h
  | cons d ds => exact fun h => by cases h

/-- What a step does to the stage of a channel. -/
theorem Sys.At.step (hline : ∀ d, lineOf (S.channel d) = .irq0) (h : Inv pdMsToTicks S Q s)
    {d : Chan} {p : Stage} (hp : s.At S d p) {l : Label}
    (hmove : Move pdMsToTicks S core s l t) :
    t.At S d (p.next (s.event S d l)) := by
  cases hmove with
  | run hl hready hmove =>
      rcases hl with rfl | rfl
      · exact hp.taskMove h.patient hmove
      · exact hp.taskMove h.patient hmove
  | tick => exact (Stage.next_none p).symm ▸ hp.congrTask rfl rfl rfl rfl fun e => id
  | finish d' k hblock => exact hp.finish hline hblock
  | interrupt L hisr hpending => exact (Stage.next_none p).symm ▸ hp.interrupt hisr
  | status c cs hisr => exact hp.status hisr
  | call f c cs hisr =>
      rcases h.callee f c cs hisr with ⟨rfl, d', rfl⟩
      exact hp.call hisr
  | acknowledge c cs hisr => exact hp.acknowledge hisr

theorem Inv.step (hline : ∀ d, lineOf (S.channel d) = .irq0) (h : Inv pdMsToTicks S Q s)
    {l : Label} (hmove : Move pdMsToTicks S core s l t)
    (hQ : ∀ d p, s.At S d p → Q p = true → Q (p.next (s.event S d l)) = true) :
    Inv pdMsToTicks S Q t := by
  have hstages : ∀ d, ∃ p, t.At S d p ∧ Q p = true := by
    intro d
    rcases h.stages d with ⟨p, hp, hq⟩
    exact ⟨_, Sys.At.step hline h hp hmove, hQ d p hp hq⟩
  cases hmove with
  | run hl hready hmove =>
      exact ⟨hstages, h.pending, h.callee, h.patient.taskMove hmove, h.honest_taskMove hmove⟩
  | tick => exact ⟨hstages, h.pending, h.callee, ⟨h.patient.calls, h.patient.current⟩,
      ⟨h.honest.genuine, h.honest.taken⟩⟩
  | finish d k hblock =>
      refine ⟨hstages, ?_, h.callee, ⟨h.patient.calls, h.patient.current⟩, h.honest.genuine, ?_⟩
      · intro L c hc
        rcases mem_raise.1 hc with hc | ⟨rfl, rfl⟩
        · exact h.pending L c hc
        · exact ⟨hline d, d, rfl⟩
      · exact fun c hc => List.mem_cons_of_mem _ (h.honest.taken c hc)
  | interrupt L hisr hpending =>
      exact ⟨hstages, h.pending, fun f c cs hcall => absurd hcall fromLoop_ne_call, h.patient,
        h.honest⟩
  | status c cs hisr =>
      refine ⟨hstages, h.pending, ?_, h.patient, h.honest⟩
      intro f c' cs' hcall
      dsimp only at hcall
      rcases fromStatus_cases S.table c cs (decide (c ∈ s.irq.pending .irq0)) with
        ⟨g, hg, hpending, hnext⟩ | ⟨-, hnext⟩
      · -- Only a channel of the object is pending, and that is registered with `damCallback`.
        rw [hnext] at hcall
        cases hcall
        rcases h.pending .irq0 c (of_decide_eq_true hpending) with ⟨-, d, rfl⟩
        rw [S.registered d] at hg
        cases hg
        exact ⟨rfl, d, rfl⟩
      · rw [hnext] at hcall
        exact absurd hcall fromLoop_ne_call
  | call f c cs hisr =>
      rcases h.callee f c cs hisr with ⟨rfl, d, rfl⟩
      have hspi := gives_registered (S := S) d s.spi
      refine ⟨hstages, h.pending, (fun f c cs hcall => by cases hcall), ?_, ?_⟩
      · exact hspi ▸ ⟨h.patient.calls, h.patient.current⟩
      · exact hspi ▸ ⟨h.honest.genuine, h.honest.taken⟩
  | acknowledge c cs hisr =>
      refine ⟨hstages, ?_, fun f c cs hcall => absurd hcall fromLoop_ne_call, h.patient, h.honest⟩
      intro L c' hc'
      dsimp only at hc'
      refine h.pending L c' ?_
      by_cases hL : L = .irq0
      · subst hL
        rw [Function.update_self] at hc'
        exact Finset.mem_of_mem_erase hc'
      · rwa [Function.update_of_ne hL] at hc'

theorem Inv.boot {calls : List Completion.Call} (hQ : Q .quiet = true)
    (h : ∀ c ∈ calls, c.Patient pdMsToTicks) : Inv pdMsToTicks S Q (boot calls) where
  stages d := by
    refine ⟨.quiet, ⟨rfl, rfl, ?_, ?_, ?_, rfl, ?_⟩, hQ⟩
    · simp [Interrupts.boot, Stage.pending, Stage.acknowledges]
    · exact fun hcall => by cases hcall
    · simp [Interrupts.boot, Sys.acknowledging, Stage.acknowledges]
    · exact fun hnot => by cases hnot
  pending L c hc := absurd hc (Finset.notMem_empty c)
  callee f c cs hcall := by cases hcall
  patient := ⟨h, fun q hq => by cases hq⟩
  honest := ⟨trivial, fun c hc => by cases hc⟩

end Invariant

/-! ## The steps that are left -/

/-- The channels that the handler still comes to. -/
def ahead : IsrPc n Callee → List (Fin n)
  | .status c cs => c :: cs
  | .call _ c cs => c :: cs
  | .acknowledge _ cs => cs

/-- At most so many actions are left to the handler. -/
def rest : IsrPc n Callee → Nat
  | .status _ cs => 3 * (cs.length + 1)
  | .call _ _ cs => 3 * cs.length + 2
  | .acknowledge _ cs => 3 * cs.length + 1

/-- The actions of a whole run of `dma_handler0`, at most. -/
def scan (n : Nat) : Nat :=
  3 * (Line.irq0.channels n).length

namespace Sys

/-- The channel is pending, and only another run of the handler comes to it. -/
def Behind (s : Sys n) (d : Chan) : Prop :=
  S.channel d ∈ s.irq.pending .irq0 ∧ S.channel d ∉ s.isr.elim [] ahead ∧
    s.acknowledging ≠ some (S.channel d)

instance (s : Sys n) (d : Chan) : Decidable (s.Behind S d) :=
  inferInstanceAs (Decidable (_ ∧ _ ∧ _))

/-- What a channel costs: a block under way makes the handler run once more. -/
def weight (s : Sys n) (d : Chan) : Nat :=
  if (s.spi.chan d).block.isSome then scan n + 2
  else if s.Behind S d then scan n + 1
  else 0

/-- What the open call costs. -/
def pcWeight (n : Nat) : Option Completion.Pc → Nat
  | none => 0
  | some (.dmaWrite _) => 2 * (scan n + 2) + 5
  | some (.dmaRead _) => 2 * (scan n + 2) + 4
  | some (.dmaStart _) => 2 * (scan n + 2) + 3
  | some (.take .tx _) => 2
  | some (.take .rx _) => 1

def taskWeight (n : Nat) (u : Completion.Sys) : Nat :=
  pcWeight n u.pc + u.calls.length * (2 * (scan n + 2) + 6)

/-- The steps that are left, at most. -/
def fuel (s : Sys n) : Nat :=
  taskWeight n s.spi + s.weight S .tx + s.weight S .rx + s.isr.elim 0 rest

end Sys

section Fuel

variable {pdMsToTicks S core} {Q : Stage → Bool} {s t : Sys n} {u : Completion.Sys}

theorem weight_le (d : Chan) : s.weight S d ≤ scan n + 2 := by
  unfold Sys.weight
  split
  · exact le_rfl
  · split
    · exact Nat.le_succ _
    · exact Nat.zero_le _

theorem weight_mono {d : Chan} (hblock : (t.spi.chan d).block = (s.spi.chan d).block)
    (hbehind : t.Behind S d → s.Behind S d) : t.weight S d ≤ s.weight S d := by
  unfold Sys.weight
  rw [hblock]
  split
  · exact le_rfl
  · by_cases ht : t.Behind S d
    · rw [if_pos ht, if_pos (hbehind ht)]
    · rw [if_neg ht]
      exact Nat.zero_le _

theorem rest_fromLoop (cs : List (Fin n)) :
    (IsrPc.entered (IsrPc.fromLoop cs : IsrPc n Callee ⊕ Unit)).elim 0 rest = 3 * cs.length := by
  cases cs <;> rfl

theorem ahead_fromLoop (cs : List (Fin n)) :
    (IsrPc.entered (IsrPc.fromLoop cs : IsrPc n Callee ⊕ Unit)).elim [] ahead = cs := by
  cases cs <;> rfl

/-- The handler goes on, and leaves no channel behind. -/
theorem fuel_lt_of_handler (hspi : t.spi.pc = s.spi.pc) (hcalls : t.spi.calls = s.spi.calls)
    (hblock : ∀ d, (t.spi.chan d).block = (s.spi.chan d).block)
    (hbehind : ∀ d, t.Behind S d → s.Behind S d)
    (hrest : t.isr.elim 0 rest < s.isr.elim 0 rest) : t.fuel S < s.fuel S := by
  have htx := weight_mono (hblock .tx) (hbehind .tx)
  have hrx := weight_mono (hblock .rx) (hbehind .rx)
  simp only [Sys.fuel, Sys.taskWeight, hspi, hcalls]
  omega

/-- The task goes on, and starts no channel. -/
theorem fuel_lt_of_task (hchan : ∀ d, (u.chan d).block = (s.spi.chan d).block)
    (hweight : Sys.taskWeight n u < Sys.taskWeight n s.spi) :
    Sys.fuel S { s with spi := u } < s.fuel S := by
  have htx : Sys.weight S { s with spi := u } .tx ≤ s.weight S .tx := weight_mono (hchan .tx) id
  have hrx : Sys.weight S { s with spi := u } .rx ≤ s.weight S .rx := weight_mono (hchan .rx) id
  simp only [Sys.fuel]
  omega

theorem fuel_lt_of_taskMove (hmove : TaskMove pdMsToTicks s.spi u) :
    Sys.fuel S { s with spi := u } < s.fuel S := by
  cases hmove with
  | begin c cs hpc hcalls =>
      refine fuel_lt_of_task (fun d => rfl) ?_
      simp only [Sys.taskWeight, Sys.pcWeight, hpc, hcalls, List.length_cons, Nat.add_mul]
      omega
  | dmaWrite c hpc =>
      refine fuel_lt_of_task (fun d => by cases d <;> rfl) ?_
      simp only [Sys.taskWeight, Sys.pcWeight, hpc, Completion.Sys.setChan]
      omega
  | dmaRead c hpc =>
      refine fuel_lt_of_task (fun d => by cases d <;> rfl) ?_
      simp only [Sys.taskWeight, Sys.pcWeight, hpc, Completion.Sys.setChan]
      omega
  | dmaStart c hpc =>
      generalize ht : ({ s with spi := { s.spi with
        chan := s.spi.startChannel, pc := some (.take .tx c), waited := 0 } } : Sys n) = t
      have hstarted : t.spi.pc = some (.take .tx c) := ht ▸ rfl
      have hcalls : t.spi.calls = s.spi.calls := ht ▸ rfl
      have hisr : t.isr = s.isr := ht ▸ rfl
      -- What the call has been charged pays for the two blocks.
      have htx : t.weight S .tx ≤ scan n + 2 := weight_le .tx
      have hrx : t.weight S .rx ≤ scan n + 2 := weight_le .rx
      simp only [Sys.fuel, Sys.taskWeight, hstarted, hcalls, hisr, hpc, Sys.pcWeight]
      omega
  | take d c hpc hsem =>
      cases d with
      | tx =>
          refine fuel_lt_of_task (fun d => by cases d <;> rfl) ?_
          simp only [Sys.taskWeight, Sys.pcWeight, hpc, Completion.afterTake,
            Completion.Sys.setChan]
          omega
      | rx =>
          refine fuel_lt_of_task (fun d => by cases d <;> rfl) ?_
          simp only [Sys.taskWeight, Sys.pcWeight, hpc, Completion.afterTake,
            Completion.Sys.setChan]
          omega
  | giveUp d c hpc hexpired =>
      cases d with
      | tx =>
          refine fuel_lt_of_task (fun d => by cases d <;> rfl) ?_
          simp only [Sys.taskWeight, Sys.pcWeight, hpc, Completion.afterTake]
          omega
      | rx =>
          refine fuel_lt_of_task (fun d => by cases d <;> rfl) ?_
          simp only [Sys.taskWeight, Sys.pcWeight, hpc, Completion.afterTake]
          omega

/-- A channel finishes its block: the handler has to run for it. -/
theorem fuel_lt_of_finish {d : Chan} {k : Nat} (hblock : (s.spi.chan d).block = some k) :
    Sys.fuel S { s with
      irq := { s.irq with pending := s.raise S d }
      spi := { s.spi.setChan d { s.spi.chan d with block := none } with
        history := .finished d k :: s.spi.history } } < s.fuel S := by
  generalize ht : ({ s with
      irq := { s.irq with pending := s.raise S d }
      spi := { s.spi.setChan d { s.spi.chan d with block := none } with
        history := .finished d k :: s.spi.history } } : Sys n) = t
  have hisr : t.isr = s.isr := ht ▸ rfl
  have hpc : t.spi.pc = s.spi.pc := ht ▸ rfl
  have hcalls : t.spi.calls = s.spi.calls := ht ▸ rfl
  -- The block was worth one step more than its pending bit.
  have hdone : t.weight S d ≤ scan n + 1 := by
    have hnone : (t.spi.chan d).block = none := by
      rw [← ht]
      simp [Completion.Sys.setChan]
    simp only [Sys.weight, hnone, Option.isSome_none, Bool.false_eq_true, if_false]
    split
    · exact le_rfl
    · exact Nat.zero_le _
  have hwas : s.weight S d = scan n + 2 := by
    rw [Sys.weight, hblock, Option.isSome_some, if_pos rfl]
  have hother : ∀ d', d' ≠ d → t.weight S d' ≤ s.weight S d' := by
    intro d' hne
    refine weight_mono ?_ ?_
    · rw [← ht]
      exact congrArg _ (Function.update_of_ne hne _ _)
    · rintro ⟨hpending, hahead, hack⟩
      refine ⟨?_, hisr ▸ hahead, ?_⟩
      · rw [← ht] at hpending
        exact (mem_raise.1 hpending).resolve_right fun hown => channel_ne hne hown.1
      · rwa [Sys.acknowledging, hisr] at hack
  simp only [Sys.fuel, Sys.taskWeight, hpc, hcalls, hisr]
  cases d with
  | tx =>
      have hrx := hother .rx (by decide)
      omega
  | rx =>
      have htx := hother .tx (by decide)
      omega

/-- The handler is entered: a channel is pending, and it comes to that. -/
theorem fuel_lt_of_interrupt (hline : ∀ d, lineOf (S.channel d) = .irq0)
    (h : Inv pdMsToTicks S Q s) {L : Line} (hisr : s.isr = none) (hpending : s.irq.pending L ≠ ∅) :
    Sys.fuel S { s with isr := IsrPc.entered (IsrPc.fromLoop (L.channels n)) } < s.fuel S := by
  rcases Finset.nonempty_iff_ne_empty.2 hpending with ⟨c, hc⟩
  rcases h.pending L c hc with ⟨rfl, d, rfl⟩
  generalize ht : ({ s with
    isr := IsrPc.entered (IsrPc.fromLoop (Line.irq0.channels n)) } : Sys n) = t
  have hstart : t.isr = IsrPc.entered (IsrPc.fromLoop (Line.irq0.channels n)) := ht ▸ rfl
  have hspi : t.spi = s.spi := ht ▸ rfl
  -- All channels of the line are ahead of it.
  have hnot : ∀ d', ¬ t.Behind S d' := by
    rintro d' ⟨-, hahead, -⟩
    rw [hstart, ahead_fromLoop] at hahead
    exact hahead (Line.mem_channels.2 (hline d'))
  have hle : ∀ d', t.weight S d' ≤ s.weight S d' := by
    intro d'
    exact weight_mono (by rw [hspi]) fun hbehind => absurd hbehind (hnot d')
  have hlt : t.weight S d + (scan n + 1) ≤ s.weight S d := by
    rcases h.stages d with ⟨p, hp, -⟩
    have hset := hp.pending.1 hc
    have hack : p.acknowledges = false := by
      rw [Bool.eq_false_iff]
      intro hack
      have hat := hp.acknowledging.2 hack
      rw [Sys.acknowledging, hisr] at hat
      cases hat
    have hblock : (s.spi.chan d).block = none := by
      rw [hp.block, Stage.not_busy hset hack]
      rfl
    have hbehind : s.Behind S d := by
      refine ⟨hc, ?_, ?_⟩
      · rw [hisr]
        exact List.not_mem_nil
      · rw [Sys.acknowledging, hisr]
        exact fun h => by cases h
    simp only [Sys.weight, hspi, hblock, Option.isSome_none, Bool.false_eq_true, if_false,
      if_neg (hnot d), if_pos hbehind, Nat.zero_add, le_refl]
  have hscan : t.isr.elim 0 rest = scan n := by
    rw [hstart, rest_fromLoop, scan]
  simp only [Sys.fuel, hspi, hisr, hscan, Option.elim_none]
  cases d with
  | tx =>
      have hrx := hle .rx
      omega
  | rx =>
      have htx := hle .tx
      omega

section Handler

variable {c : Fin n} {cs : List (Fin n)}

/-- The handler asks for the status of a channel; a pending one of the object is not passed over. -/
theorem fuel_lt_of_status (hisr : s.isr = some (.status c cs)) :
    Sys.fuel S { s with
      isr := IsrPc.entered
        (IsrPc.fromStatus S.table c cs (decide (c ∈ s.irq.pending .irq0))) } < s.fuel S := by
  have hnext := fromStatus_cases S.table c cs (decide (c ∈ s.irq.pending .irq0))
  refine fuel_lt_of_handler rfl rfl (fun d => rfl) ?_ ?_
  · rintro d ⟨hpending, hahead, hack⟩
    refine ⟨hpending, ?_, ?_⟩
    · rw [hisr]
      dsimp only at hahead
      rcases hnext with ⟨f, -, -, hcall⟩ | ⟨hskip, hloop⟩
      · rwa [hcall] at hahead
      · rw [hloop, ahead_fromLoop] at hahead
        intro hmem
        rcases List.mem_cons.1 hmem with rfl | hmem
        · rcases hskip with hnone | hclear
          · rw [S.registered d] at hnone
            cases hnone
          · exact of_decide_eq_false hclear hpending
        · exact hahead hmem
    · rw [acknowledging_of_isr hisr]
      exact fun h => by cases h
  · dsimp only
    rw [hisr]
    rcases hnext with ⟨f, -, -, hcall⟩ | ⟨-, hloop⟩
    · rw [hcall]
      exact Nat.lt_succ_self _
    · rw [hloop, rest_fromLoop]
      exact Nat.mul_lt_mul_of_pos_left (Nat.lt_succ_self _) (by decide)

theorem fuel_lt_of_call {d : Chan}
    (hisr : s.isr = some (.call .damCallback (S.channel d) cs)) :
    Sys.fuel S
      { irq := { s.irq with
          calls := s.irq.calls ++ [(.damCallback, (S.table (S.channel d)).param)] }
        isr := some (.acknowledge (S.channel d) cs)
        spi := gives (.call .damCallback (S.table (S.channel d)).param : Dma.Act n Callee Param)
          s.spi } < s.fuel S := by
  have hspi := gives_registered (S := S) d s.spi
  refine fuel_lt_of_handler (by rw [hspi]; rfl) (by rw [hspi]; rfl) ?_ ?_ ?_
  · intro d'
    rw [hspi]
    by_cases hd : d' = d
    · subst hd
      simp [Completion.Sys.setChan]
    · exact congrArg _ (Function.update_of_ne hd _ _)
  · rintro d' ⟨hpending, hahead, hack⟩
    refine ⟨hpending, ?_, ?_⟩
    · rw [hisr]
      intro hmem
      -- Called is the channel that will be acknowledged next.
      rcases List.mem_cons.1 hmem with hd | hmem
      · exact hack (congrArg some hd.symm)
      · exact hahead hmem
    · rw [acknowledging_of_isr hisr]
      exact fun h => by cases h
  · rw [hisr]
    exact Nat.lt_succ_self _

theorem fuel_lt_of_acknowledge (hisr : s.isr = some (.acknowledge c cs)) :
    Sys.fuel S { s with
      irq := { s.irq with
        pending := Function.update s.irq.pending .irq0 ((s.irq.pending .irq0).erase c) }
      isr := IsrPc.entered (IsrPc.fromLoop cs) } < s.fuel S := by
  refine fuel_lt_of_handler rfl rfl (fun d => rfl) ?_ ?_
  · rintro d ⟨hpending, hahead, hack⟩
    dsimp only at hpending hahead
    rw [Function.update_self] at hpending
    rcases Finset.mem_erase.1 hpending with ⟨hne, hpending⟩
    refine ⟨hpending, ?_, ?_⟩
    · rw [hisr]
      rwa [ahead_fromLoop] at hahead
    · rw [acknowledging_of_isr hisr]
      exact fun hc => hne (Option.some.inj hc).symm
  · dsimp only
    rw [hisr, rest_fromLoop]
    exact Nat.lt_succ_self _

end Handler

/-- Every step but the tick uses something up. -/
theorem Move.fuel_lt (hline : ∀ d, lineOf (S.channel d) = .irq0) (h : Inv pdMsToTicks S Q s)
    {l : Label} (hmove : Move pdMsToTicks S core s l t) (hl : l ≠ .tick) :
    t.fuel S < s.fuel S := by
  cases hmove with
  | run _ hready hmove => exact fuel_lt_of_taskMove hmove
  | tick => exact absurd rfl hl
  | finish d k hblock => exact fuel_lt_of_finish hblock
  | interrupt L hisr hpending => exact fuel_lt_of_interrupt hline h hisr hpending
  | status c cs hisr => exact fuel_lt_of_status hisr
  | call f c cs hisr =>
      rcases h.callee f c cs hisr with ⟨rfl, d, rfl⟩
      exact fuel_lt_of_call hisr
  | acknowledge c cs hisr => exact fuel_lt_of_acknowledge hisr

end Fuel

/-! ## Where nothing moves -/

/-- The steps of the program and its channels; the time that passes is none of them. -/
def quietStep : Label → Sys n → Option (Sys n)
  | .tick, _ => none
  | l, s => step pdMsToTicks S core l s

/-- No block is finished between the callback of its channel and the acknowledge. -/
def Apart (s : Sys n) : Label → Prop
  | .finish d => s.acknowledging ≠ some (S.channel d)
  | _ => True

instance decidableApart (s : Sys n) : (l : Label) → Decidable (Apart S s l)
  | .finish d => inferInstanceAs (Decidable (s.acknowledging ≠ some (S.channel d)))
  | .beginCall => inferInstanceAs (Decidable True)
  | .task => inferInstanceAs (Decidable True)
  | .tick => inferInstanceAs (Decidable True)
  | .interrupt _ => inferInstanceAs (Decidable True)
  | .handler => inferInstanceAs (Decidable True)

/-- The steps of `quietStep` that keep apart what has to be. -/
def apartStep (l : Label) (s : Sys n) : Option (Sys n) :=
  if Apart S s l then quietStep pdMsToTicks S core l s else none

section Ends

variable {pdMsToTicks S core} {Q : Stage → Bool} {s t : Sys n} {calls : List Completion.Call}

theorem step_of_quietStep {l : Label} (h : quietStep pdMsToTicks S core l s = some t) :
    l ≠ .tick ∧ step pdMsToTicks S core l s = some t := by
  cases l with
  | tick => cases h
  | _ => exact ⟨(fun hl => by cases hl), h⟩

theorem isr_of_handler (h : s.handler S = none) : s.isr = none := by
  cases hisr : s.isr with
  | none => rfl
  | some q =>
      cases q with
      | status c cs => cases (handler_status hisr).symm.trans h
      | call f c cs => cases (handler_call hisr).symm.trans h
      | acknowledge c cs => cases (handler_acknowledge hisr).symm.trans h

theorem pending_of_interrupt {L : Line} (hisr : s.isr = none) (h : s.interrupt L = none) :
    s.irq.pending L = ∅ := by
  by_contra hpending
  simp [Sys.interrupt, hisr, hpending] at h

variable (pdMsToTicks core) in
theorem step_finish {d : Chan} {k : Nat} (h : (s.spi.chan d).block = some k) :
    step pdMsToTicks S core (.finish d) s = some { s with
      irq := { s.irq with pending := s.raise S d }
      spi := { s.spi.setChan d { s.spi.chan d with block := none } with
        history := .finished d k :: s.spi.history } } := by
  simp only [step, Sys.finish, h]

theorem block_of_finish {d : Chan} (h : s.finish S d = none) : (s.spi.chan d).block = none := by
  cases hblock : (s.spi.chan d).block with
  | none => rfl
  | some k => cases (step_finish id .other hblock).symm.trans h

theorem Sys.run_of_ready (h : s.ready core = true) (u : Option Completion.Sys) :
    s.run core u = u.map fun spi => { s with spi := spi } := by
  rw [Sys.run, if_pos h]

/-- The task stops between two calls or at an empty semaphore only. -/
theorem sem_of_task {q : Completion.Pc} (hpc : s.spi.pc = some q)
    (h : Completion.step pdMsToTicks .task s.spi = none) :
    ∃ d c, q = .take d c ∧ (s.spi.chan d).sem = false := by
  cases q with
  | dmaWrite c => cases (Completion.task_dmaWrite hpc).symm.trans h
  | dmaRead c => cases (Completion.task_dmaRead hpc).symm.trans h
  | dmaStart c => cases (Completion.task_dmaStart hpc).symm.trans h
  | take d c =>
      refine ⟨d, c, rfl, ?_⟩
      rw [Bool.eq_false_iff]
      intro hsem
      cases (Completion.task_take_of_sem hpc hsem).symm.trans h

/-- With no completion lost, nothing stops before the last return. -/
theorem Inv.served (h : Inv pdMsToTicks S Q s) (hQ : ∀ p, Q p = true → p.lost = false)
    (hacc : Accounts calls s.spi)
    (hstuck : ∀ l, Apart S s l → quietStep pdMsToTicks S core l s = none) :
    Served calls s.spi := by
  have hisr : s.isr = none := isr_of_handler (hstuck .handler trivial)
  have hpending : ∀ L, s.irq.pending L = ∅ :=
    fun L => pending_of_interrupt hisr (hstuck (.interrupt L) trivial)
  have hready : s.ready core = true := by
    cases core with
    | same => simp [Sys.ready, hisr, hpending]
    | other => rfl
  have hapart : ∀ d, Apart S s (.finish d) := by
    intro d hack
    rw [Sys.acknowledging, hisr] at hack
    cases hack
  have htask : Completion.step pdMsToTicks .task s.spi = none := by
    have hnone := hstuck .task trivial
    exact Option.map_eq_none_iff.1 ((Sys.run_of_ready hready _).symm.trans hnone)
  have hbegin : Completion.step pdMsToTicks .beginCall s.spi = none := by
    have hnone := hstuck .beginCall trivial
    exact Option.map_eq_none_iff.1 ((Sys.run_of_ready hready _).symm.trans hnone)
  have hpc : s.spi.pc = none := by
    by_contra hopen
    rcases Option.ne_none_iff_exists'.1 hopen with ⟨q, hq⟩
    rcases sem_of_task hq htask with ⟨d, c, rfl, hsem⟩
    rcases h.stages d with ⟨p, hp, hpQ⟩
    -- The channel has neither a block, nor a bit, nor a semaphore, but the call waits for it.
    have hblock := hp.block
    rw [block_of_finish (hstuck (.finish d) (hapart d))] at hblock
    have hclear : ¬ p.pending = true := by
      intro hset
      have hmem := hp.pending.2 hset
      rw [hpending] at hmem
      exact Finset.notMem_empty _ hmem
    have hempty : p.sem = false := hp.sem ▸ hsem
    have hidle : p.idle = false := by
      rw [hp.idle, hq]
      cases d <;> rfl
    have hlost := hQ p hpQ
    cases p with
    | quiet => cases hidle
    | moving => cases hblock
    | due => exact hclear rfl
    | answered => exact hclear rfl
    | done => cases hempty
    | early => cases hidle
    | again => cases hblock
    | late => cases hlost
    | swallowed => cases hlost
  have hcalls : s.spi.calls = [] := by
    cases hcalls : s.spi.calls with
    | nil => rfl
    | cons c cs => simp [Completion.step, Completion.Sys.beginCall, hpc, hcalls] at hbegin
  exact hacc.served h.honest.genuine hpc hcalls

theorem Accounts.step {l : Label} (h : Accounts calls s.spi)
    (hmove : Move pdMsToTicks S core s l t) :
    Accounts calls t.spi := by
  cases hmove with
  | run _ hready hmove => exact h.taskMove hmove
  | call f c cs hisr =>
      have hgives : ∀ param : Option Param, Accounts calls (gives
          (.call f param : Dma.Act n Callee Param) s.spi) := by
        intro param
        cases f with
        | other k => exact h
        | damCallback =>
            cases param with
            | none => exact h
            | some x => cases x <;> exact h
      exact hgives _
  | _ => exact h

theorem event_take {d : Chan} {l : Label} (h : s.event S d l = some .take) :
    l = .beginCall ∨ l = .task := by
  cases l with
  | beginCall => exact Or.inl rfl
  | task => exact Or.inr rfl
  | tick => cases h
  | finish d' =>
      simp only [Sys.event] at h
      split at h <;> cases h
  | interrupt L => cases h
  | handler =>
      simp only [Sys.event] at h
      by_cases hcall : s.calling = some (S.channel d)
      · rw [if_pos hcall] at h
        cases h
      · rw [if_neg hcall] at h
        split at h <;> cases h

theorem event_finish {d : Chan} {l : Label} (h : s.event S d l = some .finish) :
    l = .finish d := by
  have htask : Sys.taskEvent s.spi.pc d ≠ some .finish := by
    simp only [Sys.taskEvent]
    split
    · exact fun h => by cases h
    · split <;> exact fun h => by cases h
    · exact fun h => by cases h
  cases l with
  | beginCall => exact absurd h htask
  | task => exact absurd h htask
  | tick => cases h
  | finish d' =>
      simp only [Sys.event] at h
      split at h
      · rename_i hd
        rw [hd]
      · cases h
  | interrupt L => cases h
  | handler =>
      simp only [Sys.event] at h
      by_cases hcall : s.calling = some (S.channel d)
      · rw [if_pos hcall] at h
        cases h
      · rw [if_neg hcall] at h
        split at h <;> cases h

end Ends

/-! ## One core -/

section Same

variable {pdMsToTicks S} {s t : Sys n} {calls : List Completion.Call}

/-- On one core a semaphore is taken only after the acknowledge. -/
theorem ordered_step {d : Chan} {p : Stage} {l : Label} (hp : s.At S d p)
    (hmove : Move pdMsToTicks S .same s l t)
    (h : p.ordered = true) : (p.next (s.event S d l)).ordered = true := by
  refine Stage.ordered_next h ?_
  rintro ⟨hack, hevent⟩
  have hat := hp.acknowledging.2 hack
  -- The task runs, so the handler does not.
  have hready : s.ready .same = true := by
    cases hmove with
    | run hl hready hmove => exact hready
    | _ => rcases event_take hevent with h | h <;> cases h
  simp only [Sys.ready, Bool.and_eq_true, Option.isNone_iff_eq_none] at hready
  rw [Sys.acknowledging, hready.1.1] at hat
  cases hat

/-- With both channels in `dma_handler0`, every order of the steps ends with all calls returned. -/
theorem completes_same (hline : ∀ d, lineOf (S.channel d) = .irq0)
    (hpatient : ∀ c ∈ calls, c.Patient pdMsToTicks)
    (h : Reachable (step pdMsToTicks S .same) (boot calls) t) :
    Completes (quietStep pdMsToTicks S .same) (fun u => Served calls u.spi) t := by
  have hstep : ∀ s l u, (Inv pdMsToTicks S Stage.ordered s ∧ Accounts calls s.spi) →
      step pdMsToTicks S .same l s = some u →
        Inv pdMsToTicks S Stage.ordered u ∧ Accounts calls u.spi := by
    rintro s l u ⟨hI, hacc⟩ hl
    have hmove := move_of_step hl
    exact ⟨hI.step hline hmove fun d p hp => ordered_step hp hmove, hacc.step hmove⟩
  have ht := h.invariant hstep ⟨.boot rfl hpatient, .boot calls⟩
  refine Completes.of_measure
    (I := fun u => Inv pdMsToTicks S Stage.ordered u ∧ Accounts calls u.spi)
    (m := fun u => u.fuel S) ?_ ?_ ht
  · intro s l u hI hl
    rcases step_of_quietStep hl with ⟨hne, hl⟩
    exact ⟨hstep s l u hI hl, Move.fuel_lt hline hI.1 (move_of_step hl) hne⟩
  · intro s hI hstuck
    exact hI.1.served (fun p => Stage.not_lost_of_ordered) hI.2 fun l _ => hstuck l

/-- An interrupt that `dma_handler1` never acknowledges keeps the task from going on. -/
structure Stalled (S : Setup n) (d : Chan) (s : Sys n) : Prop where
  pending : S.channel d ∈ s.irq.pending .irq1
  pc : s.spi.pc ≠ none

theorem gives_pc (a : Dma.Act n Callee Param) (u : Completion.Sys) : (gives a u).pc = u.pc := by
  cases a with
  | call f param =>
      cases f with
      | other k => rfl
      | damCallback =>
          cases param with
          | none => rfl
          | some x => cases x <;> rfl
  | _ => rfl

theorem Stalled.step {d : Chan} {l : Label} (h : Stalled S d s)
    (hl : step pdMsToTicks S .same l s = some t) : Stalled S d t := by
  cases move_of_step hl with
  | run hl hready hmove =>
      simp only [Sys.ready, Bool.and_eq_true, decide_eq_true_eq] at hready
      have hmem := h.pending
      rw [hready.2] at hmem
      exact absurd hmem (Finset.notMem_empty _)
  | tick => exact ⟨h.pending, h.pc⟩
  | finish d' k hblock => exact ⟨mem_raise.2 (Or.inl h.pending), h.pc⟩
  | interrupt L hisr hpending => exact ⟨h.pending, h.pc⟩
  | status c cs hisr => exact ⟨h.pending, h.pc⟩
  | call f c cs hisr => exact ⟨h.pending, by rw [gives_pc]; exact h.pc⟩
  | acknowledge c cs hisr =>
      refine ⟨?_, h.pc⟩
      exact (congrArg (_ ∈ ·) (Function.update_of_ne (by decide) _ _)).mpr h.pending

theorem Stalled.not_completes {d : Chan} (h : Stalled S d s) :
    ¬ Completes (quietStep pdMsToTicks S .same) (fun u => Served calls u.spi) s := by
  intro hcompletes
  rcases hcompletes.exists_done with ⟨t, hreach, hserved⟩
  have ht : Stalled S d t :=
    hreach.invariant (fun s l u hs hl => hs.step (step_of_quietStep hl).2) h
  exact ht.pc hserved.pc

variable (pdMsToTicks) in
/-- The first call starts both channels, and the one that is not in `dma_handler0` is finished. -/
theorem exists_stalled {d : Chan} (hline : lineOf (S.channel d) = .irq1) (c : Completion.Call)
    (cs : List Completion.Call) :
    ∃ t, Reachable (step pdMsToTicks S .same) (boot (c :: cs)) t ∧ Stalled S d t := by
  have hready : ∀ u, Sys.ready .same (⟨⟨fun _ => ∅, []⟩, none, u⟩ : Sys n) = true := by
    intro u
    simp [Sys.ready]
  have hbegin : ∀ u v, Completion.step pdMsToTicks .beginCall u = some v →
      Reachable (step pdMsToTicks S .same) ⟨⟨fun _ => ∅, []⟩, none, u⟩
        ⟨⟨fun _ => ∅, []⟩, none, v⟩ := by
    intro u v h
    refine .single (l := .beginCall) ?_
    rw [step, Sys.run_of_ready (hready u), h, Option.map_some]
  have htask : ∀ u v, Completion.step pdMsToTicks .task u = some v →
      Reachable (step pdMsToTicks S .same) ⟨⟨fun _ => ∅, []⟩, none, u⟩
        ⟨⟨fun _ => ∅, []⟩, none, v⟩ := by
    intro u v h
    refine .single (l := .task) ?_
    rw [step, Sys.run_of_ready (hready u), h, Option.map_some]
  -- `beginCall`, `dmaWrite`, `dmaRead`, `dmaStart`, and then the channel of `d`.
  have hstarted := (((hbegin (.boot (c :: cs)) _ rfl).trans
    (htask _ _ (Completion.task_dmaWrite rfl))).trans
      (htask _ _ (Completion.task_dmaRead rfl))).trans (htask _ _ (Completion.task_dmaStart rfl))
  refine ⟨_, hstarted.trans (.single (step_finish pdMsToTicks .same (d := d) (k := 1) ?_)), ?_, ?_⟩
  · cases d <;> rfl
  · exact mem_raise.2 (Or.inr ⟨rfl, hline.symm⟩)
  · exact fun h => by cases h

end Same

section Same

variable {pdMsToTicks S} {calls : List Completion.Call}

/-- On one core, whatever channels the constructor is given: a sequence of calls without time-out
returns under every timing, in its order and each call after its own blocks, exactly if both
channels belong to `dma_handler0`. -/
theorem transfers_complete_iff {s t : Channels n} {dmaRx dmaTx : Fin n}
    (hs : Reachable Dma.Sys.step Dma.Sys.boot s) (h : enableDma s dmaRx dmaTx = some t)
    (hcalls : calls ≠ []) (hpatient : ∀ c ∈ calls, c.Patient pdMsToTicks) :
    (∀ u, Reachable (step pdMsToTicks (.ofEnableDma hs h) .same) (boot calls) u →
      Completes (quietStep pdMsToTicks (.ofEnableDma hs h) .same) (fun v => Served calls v.spi) u) ↔
        lineOf dmaRx = .irq0 ∧ lineOf dmaTx = .irq0 := by
  constructor
  · intro hcompletes
    have hline : ∀ d, lineOf ((Setup.ofEnableDma hs h).channel d) = .irq0 := by
      intro d
      by_contra hne
      have hother : lineOf ((Setup.ofEnableDma hs h).channel d) = .irq1 := by
        cases hL : lineOf ((Setup.ofEnableDma hs h).channel d) with
        | irq0 => exact absurd hL hne
        | irq1 => rfl
      -- The first call is enough for the run that stalls.
      rcases List.exists_cons_of_ne_nil hcalls with ⟨c, cs, rfl⟩
      rcases exists_stalled pdMsToTicks hother c cs with ⟨u, hu, hstalled⟩
      exact hstalled.not_completes (hcompletes u hu)
    exact ⟨hline .rx, hline .tx⟩
  · rintro ⟨hrx, htx⟩ u hu
    refine completes_same ?_ hpatient hu
    intro d
    cases d with
    | tx => exact htx
    | rx => exact hrx

/-- The constructor can have the channels 0 and 1 of twelve. -/
theorem firstTwo : (enableDma (Dma.Sys.boot : Channels 12) 0 1).isSome = true := by
  decide

/-- Two calls that wait as long as it takes. -/
def twoCalls : List Completion.Call :=
  [⟨4#16, Completion.portMAX_DELAY⟩, ⟨2#16, Completion.portMAX_DELAY⟩]

theorem patient_twoCalls : ∀ c ∈ twoCalls, c.Patient id := by
  intro c hc
  rcases List.mem_cons.1 hc with rfl | hc
  · rfl
  · rw [List.mem_singleton.1 hc]
    rfl

theorem transfers_complete_iff_two :
    (∀ u, Reachable (step id (.ofEnableDma (.refl _) (Option.some_get firstTwo).symm) .same)
        (boot twoCalls) u →
      Completes (quietStep id (.ofEnableDma (.refl _) (Option.some_get firstTwo).symm) .same)
        (fun v => Served twoCalls v.spi) u) ↔
      lineOf (0 : Fin 12) = .irq0 ∧ lineOf (1 : Fin 12) = .irq0 :=
  transfers_complete_iff (.refl _) (Option.some_get firstTwo).symm (List.cons_ne_nil _ _)
    patient_twoCalls

end Same

/-! ## Two cores -/

section Other

variable {pdMsToTicks S} {s t : Sys n} {calls : List Completion.Call}

theorem Inv.mono {Q Q' : Stage → Bool} (h : Inv pdMsToTicks S Q s)
    (hQ : ∀ p, Q p = true → Q' p = true) : Inv pdMsToTicks S Q' s where
  stages d := (h.stages d).imp fun p hp => ⟨hp.1, hQ p hp.2⟩
  pending := h.pending
  callee := h.callee
  patient := h.patient
  honest := h.honest

/-- No completion is lost so far. -/
def kept (p : Stage) : Bool := !p.lost

theorem kept_step {d : Chan} {p : Stage} {l : Label} (hp : s.At S d p) (hok : Apart S s l)
    (h : kept p = true) : kept (p.next (s.event S d l)) = true := by
  rw [kept, Bool.not_eq_true'] at h ⊢
  refine Stage.not_lost_next h ?_
  rintro ⟨rfl, hevent⟩
  cases event_finish hevent
  exact hok (hp.acknowledging.2 rfl)

/-- Only a completion between callback and acknowledge is lost. -/
theorem lost_of_not_apart {l : Label} (h : Inv pdMsToTicks S kept s) (hok : ¬ Apart S s l)
    (hl : step pdMsToTicks S .other l s = some t) :
    ∃ d p, s.At S d p ∧ (p.next (s.event S d l)).lost = true := by
  cases l with
  | finish d =>
      have hack : s.acknowledging = some (S.channel d) := not_not.1 hok
      rcases h.stages d with ⟨p, hp, hkept⟩
      refine ⟨d, p, hp, ?_⟩
      have hacks := hp.acknowledging.1 hack
      have hbusy : p.busy = true := by
        by_contra hnot
        have hblock := hp.block
        rw [if_neg hnot] at hblock
        simp [step, Sys.finish, hblock] at hl
      rw [Sys.event, if_pos rfl]
      cases p with
      | again => rfl
      | moving => cases hacks
      | _ => cases hbusy
  | _ => exact absurd trivial hok

/-- A lost completion is waited for in every run that follows. -/
theorem not_served_of_lost (hline : ∀ d, lineOf (S.channel d) = .irq0)
    (h : Inv pdMsToTicks S (fun _ => true) s) {d : Chan} {p : Stage} (hp : s.At S d p)
    (hlost : p.lost = true) (hreach : Reachable (step pdMsToTicks S .other) s t) :
    ¬ Served calls t.spi := by
  have ht : Inv pdMsToTicks S (fun _ => true) t ∧ ∃ q, t.At S d q ∧ q.lost = true := by
    refine hreach.invariant (I := fun u => Inv pdMsToTicks S (fun _ => true) u ∧
      ∃ q, u.At S d q ∧ q.lost = true) ?_ ⟨h, p, hp, hlost⟩
    rintro u l v ⟨hI, q, hq, hlost⟩ hl
    have hmove := move_of_step hl
    exact ⟨hI.step hline hmove fun _ _ _ _ => rfl, _, hq.step hline hI hmove,
      Stage.lost_next hlost⟩
  rcases ht with ⟨-, q, hq, hlost⟩
  intro hserved
  have hidle := hq.idle
  rw [hserved.pc] at hidle
  -- The call that waits has not returned.
  cases q with
  | late => cases hidle
  | swallowed => cases hidle
  | _ => cases hlost

/-- As long as no completion is lost, the calls can still all return. -/
theorem exists_served (hline : ∀ d, lineOf (S.channel d) = .irq0)
    (h : Inv pdMsToTicks S kept s) (hacc : Accounts calls s.spi) :
    ∃ t, Reachable (step pdMsToTicks S .other) s t ∧ Served calls t.spi := by
  have happart : ∀ u l v, apartStep pdMsToTicks S .other l u = some v →
      Apart S u l ∧ quietStep pdMsToTicks S .other l u = some v := by
    intro u l v hl
    rw [apartStep] at hl
    split at hl
    · rename_i hok
      exact ⟨hok, hl⟩
    · cases hl
  -- Left to the steps that keep apart, the calls all return.
  have hcompletes : Completes (apartStep pdMsToTicks S .other) (fun u => Served calls u.spi) s := by
    refine Completes.of_measure
      (I := fun u => Inv pdMsToTicks S kept u ∧ Accounts calls u.spi) (m := fun u => u.fuel S)
      ?_ ?_ ⟨h, hacc⟩
    · rintro u l v ⟨hI, hacc⟩ hl
      rcases happart u l v hl with ⟨hok, hquiet⟩
      rcases step_of_quietStep hquiet with ⟨hne, hl⟩
      have hmove := move_of_step hl
      exact ⟨⟨hI.step hline hmove fun d p hp => kept_step hp hok, hacc.step hmove⟩,
        hmove.fuel_lt hline hI hne⟩
    · rintro u ⟨hI, hacc⟩ hstuck
      have hnone : ∀ l, Apart S u l → quietStep pdMsToTicks S .other l u = none := by
        intro l hok
        have hl := hstuck l
        rwa [apartStep, if_pos hok] at hl
      refine hI.served (fun p hp => ?_) hacc hnone
      rwa [kept, Bool.not_eq_true'] at hp
  rcases hcompletes.exists_done with ⟨t, hreach, hserved⟩
  refine ⟨t, ?_, hserved⟩
  refine hreach.invariant (I := fun u => Reachable (step pdMsToTicks S .other) s u) ?_ (.refl s)
  intro u l v hu hl
  exact hu.trans (.single (step_of_quietStep (happart u l v hl).2).2)

/-- On two cores: the runs from which the calls can still all return are those in which no block of
a channel is finished between `damCallback` and the acknowledge. -/
theorem transfers_served_iff (hline : ∀ d, lineOf (S.channel d) = .irq0)
    (hpatient : ∀ c ∈ calls, c.Patient pdMsToTicks) {ls : List Label} :
    (Run (step pdMsToTicks S .other) Free (boot calls) ls t ∧
        ∃ u, Reachable (step pdMsToTicks S .other) t u ∧ Served calls u.spi) ↔
      Run (step pdMsToTicks S .other) (Apart S) (boot calls) ls t := by
  refine Run.ends_iff (I := fun s => Inv pdMsToTicks S kept s ∧ Accounts calls s.spi)
    (P := fun s => ∃ u, Reachable (step pdMsToTicks S .other) s u ∧ Served calls u.spi)
    ?_ ?_ ?_ ?_ ⟨.boot rfl hpatient, .boot calls⟩
  · rintro s ⟨hI, hacc⟩
    exact exists_served hline hI hacc
  · rintro s l t hl ⟨u, hu, hserved⟩
    exact ⟨u, (Reachable.single hl).trans hu, hserved⟩
  · rintro s l t ⟨hI, hacc⟩ hl hok
    have hmove := move_of_step hl
    exact ⟨hI.step hline hmove fun d p hp => kept_step hp hok, hacc.step hmove⟩
  · rintro s l t ⟨hI, -⟩ hl ⟨u, hu, hserved⟩
    by_contra hok
    rcases lost_of_not_apart hI hok hl with ⟨d, p, hp, hlost⟩
    have hall : Inv pdMsToTicks S (fun _ => true) s := hI.mono fun _ _ => rfl
    have hmove := move_of_step hl
    exact not_served_of_lost hline (hall.step hline hmove fun _ _ _ _ => rfl)
      (hp.step hline hall hmove) hlost hu hserved

/-- The second call is under way while the first is still to be acknowledged. -/
theorem transfers_served_iff_early :
    ∃ (S : Setup 12) (ls : List Label) (t : Sys 12),
      (t.spi.index = 2 ∧ t.acknowledging = some (S.channel .tx)) ∧
        Run (step id S .other) Free (boot twoCalls) ls t ∧
          ∃ u, Reachable (step id S .other) t u ∧ Served twoCalls u.spi := by
  let S : Setup 12 := .ofEnableDma (.refl _) (Option.some_get firstTwo).symm
  have hline : ∀ d, lineOf (S.channel d) = .irq0 := by
    intro d
    cases d <;> rfl
  rcases exists_run_of_exec (step id S .other) (Apart S) (boot twoCalls)
    ([.beginCall, .task, .task, .task, .finish .rx, .finish .tx, .interrupt .irq0] ++
      List.replicate 5 .handler ++ [.task, .task, .beginCall, .task, .task, .task])
    (fun t => t.spi.index = 2 ∧ t.acknowledging = some (S.channel .tx)) (by decide +kernel) with
    ⟨t, hrun, ht⟩
  exact ⟨S, _, t, of_decide_eq_true ht, (transfers_served_iff hline patient_twoCalls).2 hrun⟩

end Other

end Interrupts
end Spi
end PicoCppSdk
