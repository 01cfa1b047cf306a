import Mathlib.Data.List.Basic
import Mathlib.Logic.Function.Basic
import PicoCppSdk.Foundation.Transition

/-!
# FullDuplex — a full-duplex transfer through two FIFOs

Words are read from memory at `src` into a transmit FIFO, shifted out to a device which answers each
word with a word, and stored from a receive FIFO at `dst`.  Reading, shifting and storing go on in
any order that the FIFOs allow.  An access through a null pointer is a fault.

Where no word is overwritten before it has been read, every order gives the same result.
-/

universe u v

namespace FullDuplex

open Transition

variable {W : Type u} {σ : Type v}

/-! ## Buffers -/

/-- The `n` words at `p`. -/
def words (mem : Nat → W) (p n : Nat) : List W :=
  (List.range n).map fun i => mem (p + i)

/-- The memory with `ws` stored at `q`. -/
def store (mem : Nat → W) (q : Nat) (ws : List W) : Nat → W :=
  fun a => if q ≤ a then (ws[a - q]?).getD (mem a) else mem a

section Buffers

variable (mem : Nat → W) (p q n : Nat) (ws : List W)

@[simp] theorem length_words : (words mem p n).length = n := by
  simp [words]

theorem words_succ : words mem p (n + 1) = words mem p n ++ [mem (p + n)] := by
  simp [words, List.range_succ]

theorem getElem?_words {i : Nat} (hi : i < n) : (words mem p n)[i]? = some (mem (p + i)) := by
  simp [words, hi]

theorem words_eq_iff : words mem p n = ws ↔
    ws.length = n ∧ ∀ i, i < n → ws[i]? = some (mem (p + i)) := by
  constructor
  · rintro rfl
    exact ⟨length_words mem p n, fun i hi => getElem?_words mem p n hi⟩
  · rintro ⟨hlen, hget⟩
    refine List.ext_getElem? fun i => ?_
    by_cases hi : i < n
    · rw [hget i hi, getElem?_words mem p n hi]
    · rw [List.getElem?_eq_none (by rw [length_words]; omega),
        List.getElem?_eq_none (by omega)]

@[simp] theorem store_nil : store mem q [] = mem := by
  funext a
  simp [store]

theorem store_of_outside {a : Nat} (h : a < q ∨ q + ws.length ≤ a) : store mem q ws a = mem a := by
  rcases h with h | h
  · simp [store, Nat.not_le.2 h]
  · have hlen : ws[a - q]? = none := List.getElem?_eq_none (by omega)
    simp [store, hlen]

theorem words_store : words (store mem q ws) q ws.length = ws := by
  refine (words_eq_iff _ _ _ _).2 ⟨rfl, fun i hi => ?_⟩
  simp [store, hi]

theorem words_store_of_disjoint (h : p + n ≤ q ∨ q + ws.length ≤ p) :
    words (store mem q ws) p n = words mem p n := by
  refine List.map_congr_left fun i hi => ?_
  have hin : i < n := List.mem_range.1 hi
  refine store_of_outside mem q ws ?_
  rcases h with h | h <;> omega

theorem store_concat (w : W) :
    store mem q (ws ++ [w]) = Function.update (store mem q ws) (q + ws.length) w := by
  funext a
  by_cases ha : a = q + ws.length
  · subst ha
    simp [store]
  · rw [Function.update_of_ne ha]
    by_cases hq : q ≤ a
    · have hne : a - q ≠ ws.length := by omega
      rcases Nat.lt_or_gt_of_ne hne with hlt | hgt
      · simp [store, hq, List.getElem?_append_left hlt]
      · have hnone : (ws ++ [w])[a - q]? = none := by
          refine List.getElem?_eq_none ?_
          simp
          omega
        have hnone' : ws[a - q]? = none := List.getElem?_eq_none (by omega)
        simp [store, hq, hnone, hnone']
    · simp [store, hq]

end Buffers

/-! ## Devices -/

/-- The answers of a device to a list of words, and its state afterwards. -/
def respondAll (respond : σ → W → W × σ) : σ → List W → List W × σ
  | d, [] => ([], d)
  | d, w :: ws =>
      ((respond d w).1 :: (respondAll respond (respond d w).2 ws).1,
        (respondAll respond (respond d w).2 ws).2)

variable (respond : σ → W → W × σ)

@[simp] theorem length_respondAll (d : σ) (ws : List W) :
    (respondAll respond d ws).1.length = ws.length := by
  induction ws generalizing d with
  | nil => rfl
  | cons w ws ih => simp [respondAll, ih]

theorem respondAll_append (d : σ) (ws vs : List W) :
    respondAll respond d (ws ++ vs) =
      ((respondAll respond d ws).1 ++ (respondAll respond (respondAll respond d ws).2 vs).1,
        (respondAll respond (respondAll respond d ws).2 vs).2) := by
  induction ws generalizing d with
  | nil => rfl
  | cons w ws ih => simp [respondAll, ih]

/-- What holds of all answers holds of all answers to a list. -/
theorem forall_mem_respondAll {P : W → Prop} (hP : ∀ d w, P (respond d w).1) (d : σ)
    (ws : List W) : ∀ v ∈ (respondAll respond d ws).1, P v := by
  induction ws generalizing d with
  | nil => simp [respondAll]
  | cons w ws ih =>
      intro v hv
      rcases List.mem_cons.1 hv with rfl | hv
      · exact hP d w
      · exact ih _ v hv

/-! ## Answers in memory -/

section Answers

variable (mem : Nat → W) (p q n : Nat) (d : σ)

/-- The answers to the words at `p`, stored at `q`. -/
def storeAnswers : Nat → W :=
  store mem q (respondAll respond d (words mem p n)).1

theorem length_answers : (respondAll respond d (words mem p n)).1.length = n := by
  simp

theorem words_storeAnswers :
    words (storeAnswers respond mem p q n d) q n = (respondAll respond d (words mem p n)).1 := by
  have h := words_store mem q (respondAll respond d (words mem p n)).1
  rwa [length_answers] at h

theorem storeAnswers_of_outside {a : Nat} (h : a < q ∨ q + n ≤ a) :
    storeAnswers respond mem p q n d a = mem a := by
  refine store_of_outside mem q _ ?_
  rwa [length_answers]

theorem words_storeAnswers_of_disjoint (h : p + n ≤ q ∨ q + n ≤ p) :
    words (storeAnswers respond mem p q n d) p n = words mem p n := by
  refine words_store_of_disjoint mem p q n _ ?_
  rwa [length_answers]

end Answers

/-! ## The transfer -/

/-- Where the words come from and go to, and how many of each. -/
structure Setup where
  src : Option Nat
  dst : Option Nat
  txCount : Nat
  rxCount : Nat

structure State (W : Type u) (σ : Type v) where
  mem : Nat → W
  dev : σ
  txPos : Nat
  rxPos : Nat
  txFifo : List W
  rxFifo : List W
  /-- The words shifted out so far. -/
  mosi : List W
  fault : Bool

inductive Beat where
  | read
  | shift
  | store

/-- One beat, with FIFOs of `depth` words; `none` where it has to wait or has no more to do. -/
def step (depth : Nat) (c : Setup) : Beat → State W σ → Option (State W σ)
  | .read, s =>
      if s.fault = false ∧ s.txPos < c.txCount ∧ s.txFifo.length < depth then
        match c.src with
        -- A load through the null pointer.
        | none => some { s with fault := true }
        | some p =>
            some { s with txPos := s.txPos + 1, txFifo := s.txFifo ++ [s.mem (p + s.txPos)] }
      else
        none
  | .shift, s =>
      match s.txFifo with
      | [] => none
      | w :: ws =>
          if s.fault = false ∧ s.rxFifo.length < depth then
            some { s with
              dev := (respond s.dev w).2
              txFifo := ws
              rxFifo := s.rxFifo ++ [(respond s.dev w).1]
              mosi := s.mosi ++ [w] }
          else
            none
  | .store, s =>
      match s.rxFifo with
      | [] => none
      | w :: ws =>
          if s.fault = false ∧ s.rxPos < c.rxCount then
            match c.dst with
            -- A store through the null pointer.
            | none => some { s with fault := true }
            | some q =>
                some { s with
                  mem := Function.update s.mem (q + s.rxPos) w
                  rxPos := s.rxPos + 1
                  rxFifo := ws }
          else
            none

def start (mem : Nat → W) (d : σ) : State W σ where
  mem := mem
  dev := d
  txPos := 0
  rxPos := 0
  txFifo := []
  rxFifo := []
  mosi := []
  fault := false

/-- All words have been read and stored. -/
def State.Done (c : Setup) (s : State W σ) : Prop :=
  s.fault = false ∧ s.txPos = c.txCount ∧ s.rxPos = c.rxCount

/-! ## Transfers that do not fault -/

section Transfer

/-- No word of the source is overwritten before it has been read: the `j`-th store comes after the
`j`-th read at the earliest. -/
def InTime (p q n : Nat) : Prop :=
  ∀ i j, j < i → i < n → p + i ≠ q + j

variable {respond} {depth p q n : Nat} {mem : Nat → W} {d : σ}

/-- The words underway, against the words that were in memory: `stored` are those already stored. -/
structure Underway (respond : σ → W → W × σ) (p q n : Nat) (mem : Nat → W) (d : σ)
    (s : State W σ) (stored : List W) : Prop where
  running : s.fault = false
  sent : s.mosi ++ s.txFifo = words mem p s.txPos
  received : stored ++ s.rxFifo = (respondAll respond d s.mosi).1
  rxPos : stored.length = s.rxPos
  dev : s.dev = (respondAll respond d s.mosi).2
  mem : s.mem = store mem q stored
  bound : s.txPos ≤ n

namespace Underway

variable {s : State W σ} {stored : List W}

theorem sent_length (h : Underway respond p q n mem d s stored) :
    s.mosi.length + s.txFifo.length = s.txPos := by
  rw [← List.length_append, h.sent, length_words]

theorem received_length (h : Underway respond p q n mem d s stored) :
    s.rxPos + s.rxFifo.length = s.mosi.length := by
  rw [← h.rxPos, ← List.length_append, h.received, length_respondAll]

theorem mem_source (hpq : InTime p q n) (h : Underway respond p q n mem d s stored)
    (htx : s.txPos < n) : s.mem (p + s.txPos) = mem (p + s.txPos) := by
  have hsent := h.sent_length
  have hreceived := h.received_length
  rw [h.mem]
  refine store_of_outside mem q stored ?_
  by_contra hin
  have hj : p + s.txPos - q < s.txPos := by
    have hlen := h.rxPos
    omega
  exact hpq s.txPos (p + s.txPos - q) hj htx (by omega)

end Underway

/-- The setup of a transfer of `n` words from `p` to `q`. -/
def between (p q n : Nat) : Setup where
  src := some p
  dst := some q
  txCount := n
  rxCount := n

theorem step_read (s : State W σ) :
    step respond depth (between p q n) .read s =
      if s.fault = false ∧ s.txPos < n ∧ s.txFifo.length < depth then
        some { s with txPos := s.txPos + 1, txFifo := s.txFifo ++ [s.mem (p + s.txPos)] }
      else
        none :=
  rfl

theorem step_store {s : State W σ} {w : W} {ws : List W} (hfifo : s.rxFifo = w :: ws) :
    step respond depth (between p q n) .store s =
      if s.fault = false ∧ s.rxPos < n then
        some { s with
          mem := Function.update s.mem (q + s.rxPos) w
          rxPos := s.rxPos + 1
          rxFifo := ws }
      else
        none := by
  simp only [step, hfifo]
  rfl

theorem underway_start : Underway respond p q n mem d (start mem d) [] where
  running := rfl
  sent := rfl
  received := rfl
  rxPos := rfl
  dev := rfl
  mem := (store_nil mem q).symm
  bound := Nat.zero_le n

/-- One beat of a transfer that is in time. -/
theorem Underway.step {s t : State W σ} {stored : List W} {b : Beat} (hpq : InTime p q n)
    (h : Underway respond p q n mem d s stored)
    (hstep : FullDuplex.step respond depth (between p q n) b s = some t) :
    (∃ stored', Underway respond p q n mem d t stored') ∧
      t.txPos + t.mosi.length + t.rxPos = s.txPos + s.mosi.length + s.rxPos + 1 := by
  cases b with
  | read =>
      rw [step_read] at hstep
      split at hstep
      · rename_i hguard
        cases hstep
        refine ⟨⟨stored, h.running, ?_, h.received, h.rxPos, h.dev, h.mem, hguard.2.1⟩, ?_⟩
        · -- In time: the word that is read has not been stored over.
          rw [words_succ, ← h.sent, List.append_assoc, h.mem_source hpq hguard.2.1]
        · simp only
          omega
      · cases hstep
  | shift =>
      simp only [FullDuplex.step] at hstep
      split at hstep
      · cases hstep
      · rename_i w ws hfifo
        split at hstep
        · cases hstep
          refine ⟨⟨stored, h.running, ?_, ?_, h.rxPos, ?_, h.mem, h.bound⟩, ?_⟩
          · rw [List.append_assoc, List.singleton_append, ← hfifo, h.sent]
          -- The word goes from the FIFO to the wire, and its answer into the other FIFO.
          · rw [← List.append_assoc, h.received, respondAll_append, h.dev]
            rfl
          · rw [respondAll_append, h.dev]
            rfl
          · simp only [List.length_append, List.length_singleton]
            omega
        · cases hstep
  | store =>
      cases hfifo : s.rxFifo with
      | nil => simp [FullDuplex.step, hfifo] at hstep
      | cons w ws =>
          rw [step_store hfifo] at hstep
          split at hstep
          · cases hstep
            refine ⟨⟨stored ++ [w], h.running, h.sent, ?_, ?_, h.dev, ?_, h.bound⟩, ?_⟩
            -- The answer goes from the FIFO to the words that have been stored.
            · rw [List.append_assoc, List.singleton_append, ← hfifo, h.received]
            · rw [List.length_append, h.rxPos]
              rfl
            · rw [store_concat, h.rxPos, h.mem]
            · simp only
              omega
          · cases hstep

/-- A transfer that is in time goes on until all words are stored. -/
theorem Underway.stops {s : State W σ} {stored : List W} (hdepth : 0 < depth)
    (h : Underway respond p q n mem d s stored)
    (hstuck : ∀ b, FullDuplex.step respond depth (between p q n) b s = none) :
    s.Done (between p q n) := by
  have hsent := h.sent_length
  have hreceived := h.received_length
  have hbound := h.bound
  have hrx : s.rxFifo = [] := by
    cases hfifo : s.rxFifo with
    | nil => rfl
    | cons w ws =>
        -- Whatever is in a FIFO could move on, and so could a word that has not been read.
        have hstore := hstuck .store
        rw [hfifo, List.length_cons] at hreceived
        have hlt : s.rxPos < n := by omega
        rw [step_store hfifo, if_pos ⟨h.running, hlt⟩] at hstore
        cases hstore
  have htx : s.txFifo = [] := by
    cases hfifo : s.txFifo with
    | nil => rfl
    | cons w ws =>
        have hshift := hstuck .shift
        simp [FullDuplex.step, hfifo, h.running, hrx, Nat.ne_of_gt hdepth] at hshift
  have hread := hstuck .read
  have hn : s.txPos = n := by
    by_contra hne
    have hlt : s.txPos < n := by omega
    rw [step_read, if_pos ⟨h.running, hlt, by rwa [htx]⟩] at hread
    cases hread
  rw [hrx, List.length_nil] at hreceived
  rw [htx, List.length_nil] at hsent
  exact ⟨h.running, hn, by simp only [between]; omega⟩

theorem underway_of_reachable {t : State W σ} (hpq : InTime p q n)
    (h : Reachable (FullDuplex.step respond depth (between p q n)) (start mem d) t) :
    ∃ stored, Underway respond p q n mem d t stored := by
  refine h.invariant (I := fun t => ∃ stored, Underway respond p q n mem d t stored) ?_
    ⟨[], underway_start⟩
  rintro s b t ⟨stored, hs⟩ hstep
  exact (hs.step hpq hstep).1

theorem completes (hdepth : 0 < depth) (hpq : InTime p q n) :
    Completes (FullDuplex.step respond depth (between p q n)) (State.Done (between p q n))
      (start mem d) := by
  refine Completes.of_measure (I := fun s => ∃ stored, Underway respond p q n mem d s stored)
    (m := fun s => 3 * n - (s.txPos + s.mosi.length + s.rxPos)) ?_ ?_ ⟨[], underway_start⟩
  · rintro s b t ⟨stored, hs⟩ hstep
    rcases hs.step hpq hstep with ⟨⟨stored', ht⟩, hcount⟩
    refine ⟨⟨stored', ht⟩, ?_⟩
    have hsent := ht.sent_length
    have hreceived := ht.received_length
    have hbound := ht.bound
    omega
  · rintro s ⟨stored, hs⟩ hstuck
    exact hs.stops hdepth hstuck

/-- What a completed transfer has done. -/
theorem Underway.result {s : State W σ} {stored : List W}
    (h : Underway respond p q n mem d s stored) (hdone : s.Done (between p q n)) :
    s.mosi = words mem p n ∧
      s.dev = (respondAll respond d (words mem p n)).2 ∧
      s.mem = storeAnswers respond mem p q n d := by
  rcases hdone with ⟨_, htx, hrx⟩
  have hsent := h.sent_length
  have hreceived := h.received_length
  have htx' : s.txPos = n := htx
  have hrx' : s.rxPos = n := hrx
  have htxFifo : s.txFifo = [] := List.eq_nil_of_length_eq_zero (by omega)
  have hrxFifo : s.rxFifo = [] := List.eq_nil_of_length_eq_zero (by omega)
  have hmosi : s.mosi = words mem p n := by
    rw [← htx', ← h.sent, htxFifo, List.append_nil]
  refine ⟨hmosi, ?_, ?_⟩
  · rw [← hmosi, h.dev]
  · rw [storeAnswers, ← hmosi, ← h.received, hrxFifo, List.append_nil, h.mem]

theorem not_fault_of_reachable {t : State W σ} (hpq : InTime p q n)
    (h : Reachable (FullDuplex.step respond depth (between p q n)) (start mem d) t) :
    t.fault = false := by
  rcases underway_of_reachable hpq h with ⟨stored, ht⟩
  exact ht.running

theorem result_of_reachable {t : State W σ} (hpq : InTime p q n)
    (h : Reachable (FullDuplex.step respond depth (between p q n)) (start mem d) t)
    (hdone : t.Done (between p q n)) :
    t.mosi = words mem p n ∧
      t.dev = (respondAll respond d (words mem p n)).2 ∧
      t.mem = storeAnswers respond mem p q n d := by
  rcases underway_of_reachable hpq h with ⟨stored, ht⟩
  exact ht.result hdone

/-- A transfer that is in time has one outcome, whatever the order of its beats. -/
theorem outcome_iff (hdepth : 0 < depth) (hpq : InTime p q n) {mem' : Nat → W} {d' : σ} :
    (∃ t, Reachable (step respond depth (between p q n)) (start mem d) t ∧
        t.Done (between p q n) ∧ t.mem = mem' ∧ t.dev = d') ↔
      mem' = storeAnswers respond mem p q n d ∧
        d' = (respondAll respond d (words mem p n)).2 := by
  constructor
  · rintro ⟨t, ht, hdone, rfl, rfl⟩
    rcases result_of_reachable hpq ht hdone with ⟨_, hdev, hmem⟩
    exact ⟨hmem, hdev⟩
  · rintro ⟨rfl, rfl⟩
    rcases (completes hdepth hpq).exists_done with ⟨t, ht, hdone⟩
    rcases result_of_reachable hpq ht hdone with ⟨_, hdev, hmem⟩
    exact ⟨t, ht, hdone, hmem, hdev⟩

end Transfer

/-! ## Empty and faulty transfers -/

section Degenerate

variable {respond} {depth : Nat} {c : Setup} {mem : Nat → W} {d : σ}

/-- Without words there is nothing to do, whatever the buffers. -/
theorem step_start_of_empty (htx : c.txCount = 0) (b : Beat) :
    step respond depth c b (start mem d) = none := by
  cases b <;> simp [step, start, htx]

theorem eq_start_of_empty {t : State W σ} (htx : c.txCount = 0)
    (h : Reachable (step respond depth c) (start mem d) t) : t = start mem d := by
  refine h.invariant (I := fun t => t = start mem d) ?_ rfl
  rintro s b t rfl hstep
  rw [step_start_of_empty htx] at hstep
  cases hstep

theorem completes_of_empty (htx : c.txCount = 0) (hrx : c.rxCount = 0) :
    Completes (step respond depth c) (State.Done c) (start mem d) := by
  refine Completes.of_measure (I := fun t => t = start mem d) (m := fun _ => 0) ?_ ?_ rfl
  · rintro s b t rfl hstep
    rw [step_start_of_empty htx] at hstep
    cases hstep
  · rintro s rfl _
    exact ⟨rfl, htx.symm, hrx.symm⟩

theorem fault_of_src (hdepth : 0 < depth) (hsrc : c.src = none) (htx : 0 < c.txCount) :
    ∃ t, Reachable (step respond depth c) (start mem d) t ∧ t.fault = true := by
  refine ⟨{ start mem d with fault := true }, .single (l := .read) ?_, rfl⟩
  simp [step, start, hsrc, htx, hdepth]

theorem fault_of_dst (hdepth : 0 < depth) {p : Nat} (hsrc : c.src = some p) (hdst : c.dst = none)
    (htx : 0 < c.txCount) (hrx : 0 < c.rxCount) :
    ∃ t, Reachable (step respond depth c) (start mem d) t ∧ t.fault = true := by
  let s₁ : State W σ := { start mem d with txPos := 1, txFifo := [mem p] }
  let s₂ : State W σ :=
    { s₁ with
      dev := (respond d (mem p)).2
      txFifo := []
      rxFifo := [(respond d (mem p)).1]
      mosi := [mem p] }
  have h₁ : step respond depth c .read (start mem d) = some s₁ := by
    simp [step, start, hsrc, htx, hdepth, s₁]
  have h₂ : step respond depth c .shift s₁ = some s₂ := by
    simp [step, start, hdepth, s₁, s₂]
  have h₃ : step respond depth c .store s₂ = some { s₂ with fault := true } := by
    simp [step, start, hdst, hrx, s₁, s₂]
  exact ⟨_, ((Reachable.single h₁).trans (.single h₂)).trans (.single h₃), rfl⟩

/-- A null pointer stops the count on its side. -/
theorem step_pos {s t : State W σ} {b : Beat} (h : step respond depth c b s = some t) :
    (c.src = none → t.txPos = s.txPos) ∧ (c.dst = none → t.rxPos = s.rxPos) := by
  cases b with
  | read =>
      simp only [step] at h
      split at h
      · split at h
        · -- The load from the null pointer faults before the count.
          cases h
          exact ⟨fun _ => rfl, fun _ => rfl⟩
        · rename_i p hsrc
          cases h
          exact ⟨fun hnone => absurd (hsrc.symm.trans hnone) (Option.some_ne_none p), fun _ => rfl⟩
      · cases h
  | shift =>
      simp only [step] at h
      split at h
      · cases h
      · split at h
        · cases h
          exact ⟨fun _ => rfl, fun _ => rfl⟩
        · cases h
  | store =>
      simp only [step] at h
      split at h
      · cases h
      · split at h
        · split at h
          · cases h
            exact ⟨fun _ => rfl, fun _ => rfl⟩
          · rename_i q hdst
            cases h
            exact ⟨fun _ => rfl,
              fun hnone => absurd (hdst.symm.trans hnone) (Option.some_ne_none q)⟩
        · cases h

theorem not_done_of_dst {t : State W σ} (hdst : c.dst = none) (hrx : 0 < c.rxCount)
    (h : Reachable (step respond depth c) (start mem d) t) : ¬ t.Done c := by
  have hpos : t.rxPos = 0 := by
    refine h.invariant (I := fun t => t.rxPos = 0) ?_ rfl
    intro s b t hs hstep
    exact ((step_pos hstep).2 hdst).trans hs
  rintro ⟨_, _, hdone⟩
  omega

end Degenerate
end FullDuplex
