import PicoCppSdk.Mcp2515.Driver
import PicoCppSdk.Spi.Transfer

/-!
# Wire — the primitives of the driver as calls of `SPI`

`readByte`, `writeByte` and `bitModify` put their bytes into local variables and hand
`SPI::transfer` one null pointer each time.  With DMA each of them has one outcome, the bytes that
the controller sees and answers; without DMA none of them comes to its end.
-/

namespace PicoCppSdk
namespace Mcp2515

open Atomic Transition FullDuplex Spi

/-! ## Calls of `SPI` -/

/-- A chip on the bus: what the two edges of chip select and a byte do to it. -/
structure Slave (σ : Type) where
  select : σ → σ
  deselect : σ → σ
  respond : σ → Byte → Byte × σ

inductive SpiAct where
  | csSelect
  | csDeselect
  | transfer (tx rx : Option Nat) (size : Nat)
  /-- A local variable is given a value. -/
  | store (p : Nat) (b : Byte)
  | load (p : Nat)

abbrev SpiAct.Ans : SpiAct → Type
  | .load _ => Byte
  | _ => Unit

/-- Memory, and the chip. -/
abbrev Node (σ : Type) := (Nat → Byte) × σ

variable {σ : Type}

/-- The outcomes of an action; for a transfer those of its complete runs. -/
def SpiAct.Outcome (S : Slave σ) (enableDma : Bool) :
    (a : SpiAct) → Node σ → a.Ans → Node σ → Prop
  | .csSelect, s, _, t => t = (s.1, S.select s.2)
  | .csDeselect, s, _, t => t = (s.1, S.deselect s.2)
  | .transfer tx rx size, s, _, t =>
      ∃ u, Reachable (@transferStep false σ S.respond enableDma tx rx size)
          (start s.1 s.2) u ∧
        u.Done (Spi.transfer enableDma tx rx size) ∧ u.mem = t.1 ∧ u.dev = t.2
  | .store p b, s, _, t => t = (Function.update s.1 p b, s.2)
  | .load p, s, r, t => r = s.1 p ∧ t = s

abbrev SpiCode (α : Type) := Prog SpiAct SpiAct.Ans α

namespace SpiCode

def csSelect : SpiCode Unit := .act SpiAct.csSelect .ret

def csDeselect : SpiCode Unit := .act SpiAct.csDeselect .ret

def transfer (tx rx : Option Nat) (size : Nat) : SpiCode Unit :=
  .act (SpiAct.transfer tx rx size) .ret

def store (p : Nat) (b : Byte) : SpiCode Unit := .act (SpiAct.store p b) .ret

def load (p : Nat) : SpiCode Byte := .act (SpiAct.load p) .ret

end SpiCode

/-! ## The primitives -/

/-- The addresses of the local variables `cmd` and `rdata`. -/
structure Locals where
  cmd : Nat
  rdata : Nat
  apart : rdata < cmd ∨ cmd + 4 ≤ rdata

namespace Wire

open SpiCode

variable (L : Locals)

def readByte (Addr : Byte) : SpiCode Byte := do
  store L.cmd CAN_READ
  store (L.cmd + 1) Addr
  store L.rdata 0#8
  csSelect
  transfer (some L.cmd) none 2
  transfer none (some L.rdata) 1
  csDeselect
  load L.rdata

def writeByte (Addr data : Byte) : SpiCode Unit := do
  csSelect
  store L.cmd CAN_WRITE
  store (L.cmd + 1) Addr
  store (L.cmd + 2) data
  transfer (some L.cmd) none 3
  csDeselect

def bitModify (addr mask data : Byte) : SpiCode Unit := do
  csSelect
  store L.cmd CAN_BIT_MODIFY
  store (L.cmd + 1) addr
  store (L.cmd + 2) mask
  store (L.cmd + 3) data
  transfer (some L.cmd) none 4
  csDeselect

def resetMcp2515 : SpiCode Unit := do
  store L.cmd CAN_WRITE
  store (L.cmd + 1) CAN_RESET
  csSelect
  transfer (some L.cmd) none 2
  csDeselect

/-- The code of a transaction; the lock is no transfer. -/
def code : (a : BusAct) → SpiCode a.Ans
  | .readByte addr => readByte L addr
  | .writeByte addr data => writeByte L addr data
  | .bitModify addr mask data => bitModify L addr mask data
  | .resetMcp2515 => resetMcp2515 L
  | .lock => .ret ()
  | .unlock => .ret ()

/-- A method of the driver with the code of its transactions in their place. -/
def compile {α : Type} : Driver α → SpiCode α
  | .ret x => .ret x
  | .act a k => code L a >>= fun r => compile (k r)

end Wire

/-! ## What the chip sees -/

namespace Slave

variable (S : Slave σ)

/-- One bracket in which `bytes` are sent: the answers, and the chip afterwards. -/
def bracket (bytes : List Byte) (c : σ) : List Byte × σ :=
  ((respondAll S.respond (S.select c) bytes).1,
    S.deselect (respondAll S.respond (S.select c) bytes).2)

/-- A transaction: its bytes, and for `readByte` the answer to the last one. -/
def act : (a : BusAct) → σ → a.Ans × σ
  | .readByte addr, c =>
      ((S.bracket [CAN_READ, addr, 0#8] c).1.getLastD 0#8, (S.bracket [CAN_READ, addr, 0#8] c).2)
  | .writeByte addr data, c => ((), (S.bracket [CAN_WRITE, addr, data] c).2)
  | .bitModify addr mask data, c => ((), (S.bracket [CAN_BIT_MODIFY, addr, mask, data] c).2)
  | .resetMcp2515, c => ((), (S.bracket [CAN_WRITE, CAN_RESET] c).2)
  | .lock, c => ((), c)
  | .unlock, c => ((), c)

end Slave

namespace Wire

variable (L : Locals)

/-! ## With DMA -/

section Dma

variable {S : Slave σ} {m : Nat → Byte} {c : σ} {t : Node σ}

theorem outcome_dma_tx {p n : Nat} {s : Node σ} {r : Unit} :
    (SpiAct.transfer (some p) none n).Outcome S true s r t ↔
      t = (storeAnswers S.respond s.1 p p n s.2, (respondAll S.respond s.2 (words s.1 p n)).2) := by
  rw [Prod.ext_iff]
  exact outcome_iff (by decide) (inTime_self p n)

theorem outcome_dma_rx {q n : Nat} {s : Node σ} {r : Unit} :
    (SpiAct.transfer none (some q) n).Outcome S true s r t ↔
      t = (storeAnswers S.respond s.1 q q n s.2, (respondAll S.respond s.2 (words s.1 q n)).2) := by
  rw [Prod.ext_iff]
  exact outcome_iff (by decide) (inTime_self q n)

section Bind

variable {α : Type} {s : Node σ} {x : α} {enableDma : Bool} (f : Unit → SpiCode α)

theorem eval_csSelect :
    (SpiCode.csSelect >>= f).Eval (SpiAct.Outcome S enableDma) s x t ↔
      (f ()).Eval (SpiAct.Outcome S enableDma) (s.1, S.select s.2) x t :=
  Prog.eval_of_unique (R := SpiAct.Outcome S enableDma) (a := SpiAct.csSelect) (r := ())
    (fun _ _ => (and_iff_right rfl).symm) f x t

theorem eval_csDeselect :
    (SpiCode.csDeselect >>= f).Eval (SpiAct.Outcome S enableDma) s x t ↔
      (f ()).Eval (SpiAct.Outcome S enableDma) (s.1, S.deselect s.2) x t :=
  Prog.eval_of_unique (R := SpiAct.Outcome S enableDma) (a := SpiAct.csDeselect) (r := ())
    (fun _ _ => (and_iff_right rfl).symm) f x t

theorem eval_store (p : Nat) (b : Byte) :
    (SpiCode.store p b >>= f).Eval (SpiAct.Outcome S enableDma) s x t ↔
      (f ()).Eval (SpiAct.Outcome S enableDma) (Function.update s.1 p b, s.2) x t :=
  Prog.eval_of_unique (R := SpiAct.Outcome S enableDma) (a := SpiAct.store p b) (r := ())
    (fun _ _ => (and_iff_right rfl).symm) f x t

theorem eval_transfer_tx (p n : Nat) :
    (SpiCode.transfer (some p) none n >>= f).Eval (SpiAct.Outcome S true) s x t ↔
      (f ()).Eval (SpiAct.Outcome S true)
        (storeAnswers S.respond s.1 p p n s.2, (respondAll S.respond s.2 (words s.1 p n)).2) x t :=
  Prog.eval_of_unique (R := SpiAct.Outcome S true) (a := SpiAct.transfer (some p) none n) (r := ())
    (fun _ _ => outcome_dma_tx.trans (and_iff_right rfl).symm) f x t

theorem eval_transfer_rx (q n : Nat) :
    (SpiCode.transfer none (some q) n >>= f).Eval (SpiAct.Outcome S true) s x t ↔
      (f ()).Eval (SpiAct.Outcome S true)
        (storeAnswers S.respond s.1 q q n s.2, (respondAll S.respond s.2 (words s.1 q n)).2) x t :=
  Prog.eval_of_unique (R := SpiAct.Outcome S true) (a := SpiAct.transfer none (some q) n) (r := ())
    (fun _ _ => outcome_dma_rx.trans (and_iff_right rfl).symm) f x t

theorem eval_csDeselect_last {r : Unit} :
    SpiCode.csDeselect.Eval (SpiAct.Outcome S enableDma) s r t ↔ t = (s.1, S.deselect s.2) := by
  simp [SpiCode.csDeselect, SpiAct.Outcome]

theorem eval_load_last {p : Nat} {r : Byte} :
    (SpiCode.load p).Eval (SpiAct.Outcome S enableDma) s r t ↔ r = s.1 p ∧ t = s := by
  simp [SpiCode.load, SpiAct.Outcome]

end Bind

theorem writeByte_outcome (Addr data : Byte) (c' : σ) :
    (∃ m', (writeByte L Addr data).Eval (SpiAct.Outcome S true) (m, c) () (m', c')) ↔
      ((), c') = S.act (.writeByte Addr data) c := by
  simp only [writeByte, eval_csSelect, eval_store, eval_transfer_tx, eval_csDeselect_last,
    Prod.mk.injEq, exists_eq_left]
  have hwords : words (Function.update (Function.update (Function.update m L.cmd CAN_WRITE)
      (L.cmd + 1) Addr) (L.cmd + 2) data) L.cmd 3 = [CAN_WRITE, Addr, data] := by
    simp [words, List.range_succ]
  rw [hwords]
  simp [Slave.act, Slave.bracket]

theorem bitModify_outcome (addr mask data : Byte) (c' : σ) :
    (∃ m', (bitModify L addr mask data).Eval (SpiAct.Outcome S true) (m, c) () (m', c')) ↔
      ((), c') = S.act (.bitModify addr mask data) c := by
  simp only [bitModify, eval_csSelect, eval_store, eval_transfer_tx, eval_csDeselect_last,
    Prod.mk.injEq, exists_eq_left]
  have hwords : words (Function.update (Function.update (Function.update (Function.update m L.cmd
      CAN_BIT_MODIFY) (L.cmd + 1) addr) (L.cmd + 2) mask) (L.cmd + 3) data) L.cmd 4 =
        [CAN_BIT_MODIFY, addr, mask, data] := by
    simp [words, List.range_succ]
  rw [hwords]
  simp [Slave.act, Slave.bracket]

theorem resetMcp2515_outcome (c' : σ) :
    (∃ m', (resetMcp2515 L).Eval (SpiAct.Outcome S true) (m, c) () (m', c')) ↔
      ((), c') = S.act .resetMcp2515 c := by
  simp only [resetMcp2515, eval_csSelect, eval_store, eval_transfer_tx, eval_csDeselect_last,
    Prod.mk.injEq, exists_eq_left]
  have hwords : words (Function.update (Function.update m L.cmd CAN_WRITE) (L.cmd + 1) CAN_RESET)
      L.cmd 2 = [CAN_WRITE, CAN_RESET] := by
    simp [words, List.range_succ]
  rw [hwords]
  simp [Slave.act, Slave.bracket]

/-- The answers to the command go over the command, not over `rdata`. -/
theorem readByte_outcome (Addr r : Byte) (c' : σ) :
    (∃ m', (readByte L Addr).Eval (SpiAct.Outcome S true) (m, c) r (m', c')) ↔
      (r, c') = S.act (.readByte Addr) c := by
  simp only [readByte, eval_csSelect, eval_store, eval_transfer_tx, eval_transfer_rx,
    eval_csDeselect, eval_load_last, Prod.mk.injEq]
  generalize hm₁ : Function.update (Function.update (Function.update m L.cmd CAN_READ)
    (L.cmd + 1) Addr) L.rdata 0#8 = m₁
  -- First transfer: the command, which `rdata` does not overlap.
  have hcmd : words m₁ L.cmd 2 = [CAN_READ, Addr] := by
    have h₀ : L.cmd ≠ L.rdata := by have := L.apart; omega
    have h₁ : L.cmd + 1 ≠ L.rdata := by have := L.apart; omega
    simp [← hm₁, words, List.range_succ, Function.update_of_ne h₀, Function.update_of_ne h₁]
  rw [hcmd]
  generalize hc₁ : (respondAll S.respond (S.select c) [CAN_READ, Addr]).2 = c₁
  generalize hm₂ : storeAnswers S.respond m₁ L.cmd L.cmd 2 (S.select c) = m₂
  -- Second transfer: what goes out is the zero that `rdata` was given.
  have hrdata : words m₂ L.rdata 1 = [0#8] := by
    have hout : m₂ L.rdata = m₁ L.rdata := by
      rw [← hm₂]
      refine storeAnswers_of_outside S.respond m₁ L.cmd L.cmd 2 (S.select c) ?_
      have := L.apart
      omega
    simp [words, hout, ← hm₁]
  have hanswer : storeAnswers S.respond m₂ L.rdata L.rdata 1 c₁ L.rdata =
      (S.respond c₁ 0#8).1 := by
    have h := words_storeAnswers S.respond m₂ L.rdata L.rdata 1 c₁
    rw [hrdata] at h
    simpa [words, respondAll] using h
  rw [hrdata, hanswer]
  -- For the controller the two transfers are one of three bytes.
  have hact : S.act (.readByte Addr) c =
      ((S.respond c₁ 0#8).1, S.deselect (respondAll S.respond c₁ [0#8]).2) := by
    have hall : respondAll S.respond (S.select c) [CAN_READ, Addr, 0#8] =
        ((respondAll S.respond (S.select c) [CAN_READ, Addr]).1 ++
            (respondAll S.respond c₁ [0#8]).1, (respondAll S.respond c₁ [0#8]).2) := by
      rw [← hc₁, ← respondAll_append]
      rfl
    simp only [Slave.act, Slave.bracket, hall]
    simp [respondAll]
  rw [hact, Prod.mk.injEq]
  constructor
  · rintro ⟨m', hr, _, hc'⟩
    exact ⟨hr, hc'⟩
  · rintro ⟨hr, hc'⟩
    exact ⟨_, hr, rfl, hc'⟩

theorem code_outcome (a : BusAct) (r : a.Ans) (c' : σ) :
    (∃ m', (code L a).Eval (SpiAct.Outcome S true) (m, c) r (m', c')) ↔
      (r, c') = S.act a c := by
  cases a with
  | readByte addr => exact readByte_outcome L addr r c'
  | writeByte addr data => exact writeByte_outcome L addr data c'
  | bitModify addr mask data => exact bitModify_outcome L addr mask data c'
  | resetMcp2515 => exact resetMcp2515_outcome L c'
  | lock => simp [code, Slave.act]
  | unlock => simp [code, Slave.act]

/-- With DMA every method of the driver has exactly one outcome, on any chip: that of its
transactions one after the other. -/
theorem compile_outcome {α : Type} (p : Driver α) (x : α) (c' : σ) :
    (∃ m', (compile L p).Eval (SpiAct.Outcome S true) (m, c) x (m', c')) ↔
      (x, c') = p.run S.act c := by
  induction p generalizing m c with
  | ret y => simp [compile]
  | act a k ih =>
      simp only [compile, Prog.eval_bind, Prog.run_act]
      constructor
      · rintro ⟨m', r, ⟨m₁, c₁⟩, hcode, hrest⟩
        have hact := (code_outcome L a r c₁).1 ⟨m₁, hcode⟩
        rw [← hact]
        exact (ih r).1 ⟨m', hrest⟩
      · intro hx
        rcases (code_outcome (m := m) L a (S.act a c).1 (S.act a c).2).2 rfl with ⟨m₁, hcode⟩
        rcases (ih (S.act a c).1 (m := m₁)).2 hx with ⟨m', hrest⟩
        exact ⟨m', _, _, hcode, hrest⟩

end Dma

/-! ## Without DMA -/

section Blocking

variable {S : Slave σ} {s t : Node σ}

/-- The blocking functions read through the null pointer, or store through it. -/
theorem no_outcome_tx {p n : Nat} (hn : 0 < n) {r : Unit} :
    ¬ (SpiAct.transfer (some p) none n).Outcome S false s r t := by
  rintro ⟨u, hu, hdone, _, _⟩
  exact not_done_of_dst rfl hn hu hdone

theorem not_eval_transfer {α : Type} {p n : Nat} (hn : 0 < n) (f : Unit → SpiCode α) (x : α) :
    ¬ (SpiCode.transfer (some p) none n >>= f).Eval (SpiAct.Outcome S false) s x t := by
  rintro ⟨r, u, hout, _⟩
  exact no_outcome_tx hn hout

/-- A byte transaction does not come to its end. -/
theorem not_eval_code {a : BusAct} (hlock : a ≠ .lock) (hunlock : a ≠ .unlock) (r : a.Ans) :
    ¬ (code L a).Eval (SpiAct.Outcome S false) s r t := by
  cases a with
  | readByte addr =>
      simp only [code, readByte, eval_csSelect, eval_store]
      exact not_eval_transfer (by decide) _ r
  | writeByte addr data =>
      simp only [code, writeByte, eval_csSelect, eval_store]
      exact not_eval_transfer (by decide) _ r
  | bitModify addr mask data =>
      simp only [code, bitModify, eval_csSelect, eval_store]
      exact not_eval_transfer (by decide) _ r
  | resetMcp2515 =>
      simp only [code, resetMcp2515, eval_csSelect, eval_store]
      exact not_eval_transfer (by decide) _ r
  | lock => exact absurd rfl hlock
  | unlock => exact absurd rfl hunlock

end Blocking

/-! ## The two paths -/

/-- The method does the same with and without DMA, on every chip: it returns the same values and
leaves the chip in the same state. -/
def SameEffect {α : Type} (p : Driver α) : Prop :=
  ∀ {σ : Type} (S : Slave σ) (L : Locals) (m : Nat → Byte) (c : σ) (x : α) (c' : σ),
    (∃ m', (compile L p).Eval (SpiAct.Outcome S true) (m, c) x (m', c')) ↔
      ∃ m', (compile L p).Eval (SpiAct.Outcome S false) (m, c) x (m', c')

/-- The method makes no byte transaction. -/
def Quiet {α : Type} : Driver α → Prop
  | .ret _ => True
  | .act .lock k => Quiet (k ())
  | .act .unlock k => Quiet (k ())
  | .act _ _ => False

theorem compile_quiet {α : Type} {p : Driver α} (h : Quiet p) :
    ∃ x, ∀ L, compile L p = .ret x := by
  induction p with
  | ret x => exact ⟨x, fun _ => rfl⟩
  | act a k ih =>
      cases a with
      | lock => exact ih () h
      | unlock => exact ih () h
      | _ => exact h.elim

/-- Without DMA a method that is not quiet has no outcome. -/
theorem not_eval_compile {α : Type} {p : Driver α} (h : ¬ Quiet p) (S : Slave σ) (s t : Node σ)
    (x : α) : ¬ (compile L p).Eval (SpiAct.Outcome S false) s x t := by
  induction p generalizing s with
  | ret y => exact absurd trivial h
  | act a k ih =>
      simp only [compile, Prog.eval_bind]
      rintro ⟨r, u, hcode, hrest⟩
      by_cases hlock : a = .lock
      · subst hlock
        exact ih r h u hrest
      · by_cases hunlock : a = .unlock
        · subst hunlock
          exact ih r h u hrest
        · exact not_eval_code L hlock hunlock r hcode

theorem sameEffect_iff {α : Type} (p : Driver α) : SameEffect p ↔ Quiet p := by
  constructor
  · intro h
    by_contra hquiet
    let S : Slave Unit := ⟨id, id, fun d _ => (0#8, d)⟩
    let L : Locals := ⟨0, 4, Or.inr (Nat.le_refl 4)⟩
    have hdma := (compile_outcome (S := S) (m := fun _ => 0#8) (c := ()) L p _ _).2 rfl
    rcases (h S L (fun _ => 0#8) () _ _).1 hdma with ⟨m', hblocking⟩
    exact not_eval_compile L hquiet S _ _ _ hblocking
  · intro hquiet σ S L m c x c'
    rcases compile_quiet hquiet with ⟨y, hy⟩
    rw [hy L]
    exact Iff.rfl

/-- A transfer is right on both paths exactly if it is empty or has two buffers apart from each
other; and a method of the driver does the same on both paths exactly if it transfers nothing. -/
theorem paths_agree_iff (data16Bits : Bool) (tx rx : Option Nat) (size : Nat) {α : Type}
    (p : Driver α) :
    ((∀ enableDma, Correct data16Bits enableDma tx rx size) ↔
      size = 0 ∨ ∃ p q, tx = some p ∧ rx = some q ∧ Disjoint p q size) ∧
    (SameEffect p ↔ Quiet p) := by
  refine ⟨⟨fun h => blocking_correct_iff.1 (h false), ?_⟩, sameEffect_iff p⟩
  rintro hcond (_ | _)
  · exact blocking_correct_iff.2 hcond
  · rcases hcond with hsize | hbuffers
    · exact dma_correct_iff.2 (Or.inl hsize)
    · exact dma_correct_iff.2 (Or.inr (Or.inr hbuffers))

/-- The command of a `readByte`: without DMA its transfer faults, and with DMA the command is
overwritten; the `readByte` itself only works with DMA. -/
theorem not_paths_agree :
    ¬ Correct false false (some 0) none 2 ∧ ¬ Correct false true (some 0) none 2 ∧
      ¬ SameEffect (Mcp2515.readByte CANINTF) := by
  refine ⟨?_, not_correct_dma_tx (by decide), ?_⟩
  · refine not_correct_of_fault ?_
    exact fault_of_dst (by decide) rfl rfl (by decide) (by decide)
  · exact fun h => (sameEffect_iff _).1 h

end Wire
end Mcp2515
end PicoCppSdk
