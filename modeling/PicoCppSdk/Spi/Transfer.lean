import PicoCppSdk.Foundation.FullDuplex

/-!
# Transfer — `SPI::transfer` with and without DMA

Both paths are a full-duplex transfer; they differ in the buffers they hand on.  With DMA a missing
buffer is replaced by the other one: without a receive buffer the received words go over the
caller's transmit buffer.  The blocking functions get the null pointer, and use it.

Pointers count words (`_data16Bits` chooses 8 or 16 bits).  The wait for the two completion
semaphores has no time-out, as in all calls of the driver.
-/

namespace PicoCppSdk
namespace Spi

open Transition FullDuplex

/-! ## `SPI::transfer` -/

abbrev wordBits : (data16Bits : Bool) → Nat
  | true => 16
  | false => 8

/-- A word of the transfer. -/
abbrev Word (data16Bits : Bool) : Type :=
  BitVec (wordBits data16Bits)

/-- The FIFOs of the SPI block are eight words deep. -/
def fifoDepth : Nat := 8

/-- The two channels before a transfer. -/
def channels : Setup where
  src := none
  dst := none
  txCount := 0
  rxCount := 0

def dmaWrite (data : Option Nat) (size : Nat) (c : Setup) : Setup :=
  { c with src := data, txCount := size }

def dmaRead (data : Option Nat) (size : Nat) (c : Setup) : Setup :=
  { c with dst := data, rxCount := size }

/-- `spi_write_read_blocking`, and the same on 16 bits: word `i` is read at `src + i` and stored at
`dst + i`, for every `i` below `len`. -/
def spiWriteReadBlocking (src dst : Option Nat) (len : Nat) : Setup where
  src := src
  dst := dst
  txCount := len
  rxCount := len

/-- The transfer that `SPI::transfer` starts and waits for. -/
def transfer (enableDma : Bool) (tx rx : Option Nat) (size : Nat) : Setup :=
  if enableDma then
    dmaRead (if rx = none then tx else rx) size
      (dmaWrite (if tx = none then rx else tx) size channels)
  else
    spiWriteReadBlocking tx rx size

/-- The transfer as a system: the processor or the two DMA channels, and the device. -/
abbrev transferStep {data16Bits : Bool} {σ : Type}
    (respond : σ → Word data16Bits → Word data16Bits × σ) (enableDma : Bool)
    (tx rx : Option Nat) (size : Nat) :
    Beat → State (Word data16Bits) σ → Option (State (Word data16Bits) σ) :=
  FullDuplex.step respond fifoDepth (transfer enableDma tx rx size)

/-! ## The property -/

/-- How a transfer leaves things, started with the memory `mem` and the device in state `d`. -/
structure Result {data16Bits : Bool} {σ : Type}
    (respond : σ → Word data16Bits → Word data16Bits × σ) (tx rx : Option Nat) (size : Nat)
    (mem : Nat → Word data16Bits) (d : σ) (t : State (Word data16Bits) σ) : Prop where
  /-- A transmit buffer is what has been sent. -/
  sent : ∀ p, tx = some p → t.mosi = words mem p size
  /-- A transmit buffer is unchanged. -/
  kept : ∀ p, tx = some p → words t.mem p size = words mem p size
  /-- A receive buffer holds the answers. -/
  received : ∀ q, rx = some q → words t.mem q size = (respondAll respond d t.mosi).1
  /-- Nothing else has been stored. -/
  frame : ∀ a, (∀ q, rx = some q → a < q ∨ q + size ≤ a) → t.mem a = mem a

/-- Every run of the transfer ends, without an access through a null pointer, in the result that the
caller expects; from any memory and with any device. -/
def Correct (data16Bits enableDma : Bool) (tx rx : Option Nat) (size : Nat) : Prop :=
  ∀ {σ : Type} (respond : σ → Word data16Bits → Word data16Bits × σ)
    (mem : Nat → Word data16Bits) (d : σ),
    Completes (transferStep respond enableDma tx rx size)
        (State.Done (transfer enableDma tx rx size)) (start mem d) ∧
      ∀ t, Reachable (transferStep respond enableDma tx rx size) (start mem d) t →
        t.fault = false ∧
          (t.Done (transfer enableDma tx rx size) → Result respond tx rx size mem d t)

/-- Two buffers of `n` words have no word in common. -/
def Disjoint (p q n : Nat) : Prop :=
  p + n ≤ q ∨ q + n ≤ p

theorem Disjoint.inTime {p q n : Nat} (h : Disjoint p q n) : InTime p q n := by
  intro i j hj hi
  rcases h with h | h <;> omega

theorem inTime_self (p n : Nat) : InTime p p n := by
  intro i j hj _
  omega

variable {data16Bits enableDma : Bool} {p q size : Nat} {tx rx : Option Nat}

/-! ## The setups -/

theorem transfer_both : transfer enableDma (some p) (some q) size = between p q size := by
  cases enableDma <;> rfl

/-- With DMA a missing buffer is the other one. -/
theorem transfer_dma_tx : transfer true (some p) none size = between p p size := rfl

theorem transfer_dma_rx : transfer true none (some q) size = between q q size := rfl

/-! ## Transfers that are correct -/

theorem correct_of_empty (hsize : size = 0) : Correct data16Bits enableDma tx rx size := by
  subst hsize
  have htx : (transfer enableDma tx rx 0).txCount = 0 := by cases enableDma <;> rfl
  have hrx : (transfer enableDma tx rx 0).rxCount = 0 := by cases enableDma <;> rfl
  intro σ respond mem d
  refine ⟨completes_of_empty htx hrx, fun t ht => ?_⟩
  rw [eq_start_of_empty htx ht]
  exact ⟨rfl, fun _ => ⟨fun _ _ => rfl, fun _ _ => rfl, fun _ _ => rfl, fun _ _ => rfl⟩⟩

theorem correct_of_disjoint (h : Disjoint p q size) :
    Correct data16Bits enableDma (some p) (some q) size := by
  intro σ respond mem d
  simp only [transferStep, transfer_both]
  refine ⟨completes (by decide) h.inTime, fun t ht => ⟨not_fault_of_reachable h.inTime ht, ?_⟩⟩
  intro hdone
  rcases result_of_reachable h.inTime ht hdone with ⟨hmosi, _, hmem⟩
  refine ⟨?_, ?_, ?_, ?_⟩
  · rintro _ ⟨⟩
    exact hmosi
  · rintro _ ⟨⟩
    rw [hmem]
    exact words_storeAnswers_of_disjoint respond mem p q size d h
  · rintro _ ⟨⟩
    rw [hmem, hmosi]
    exact words_storeAnswers respond mem p q size d
  · intro a ha
    rw [hmem]
    exact storeAnswers_of_outside respond mem p q size d (ha q rfl)

/-- With DMA and no transmit buffer, the old content of the receive buffer is sent. -/
theorem correct_dma_rx : Correct data16Bits true none (some q) size := by
  intro σ respond mem d
  simp only [transferStep, transfer_dma_rx]
  refine ⟨completes (by decide) (inTime_self q size), fun t ht =>
    ⟨not_fault_of_reachable (inTime_self q size) ht, fun hdone => ?_⟩⟩
  rcases result_of_reachable (inTime_self q size) ht hdone with ⟨hmosi, _, hmem⟩
  refine ⟨?_, ?_, ?_, ?_⟩
  · rintro _ ⟨⟩
  · rintro _ ⟨⟩
  · rintro _ ⟨⟩
    rw [hmem, hmosi]
    exact words_storeAnswers respond mem q q size d
  · intro a ha
    rw [hmem]
    exact storeAnswers_of_outside respond mem q q size d (ha q rfl)

/-! ## Transfers that are not -/

theorem not_correct_of_fault
    (h : ∃ t : State (Word data16Bits) Unit, Reachable
      (transferStep (fun d w => (w, d)) enableDma tx rx size) (start (fun _ => 0) ()) t ∧
        t.fault = true) : ¬ Correct data16Bits enableDma tx rx size := by
  intro hcorrect
  rcases h with ⟨t, ht, hfault⟩
  have hok := ((hcorrect _ _ _).2 t ht).1
  rw [hfault] at hok
  cases hok

/-- A device that answers 1 to everything. -/
def ones (data16Bits : Bool) (d : Unit) (_ : Word data16Bits) : Word data16Bits × Unit :=
  (1, d)

theorem one_ne_zero_word (data16Bits : Bool) : (1 : Word data16Bits) ≠ 0 := by
  cases data16Bits <;> decide

/-- A word of the memory that the answers of `ones` have been stored over. -/
theorem eq_one_of_received {mem : Nat → Word data16Bits} {ws : List (Word data16Bits)} {j : Nat}
    (hj : j < size) (h : words mem q size = (respondAll (ones data16Bits) () ws).1) :
    mem (q + j) = 1 := by
  have hget := getElem?_words mem q size hj
  rw [h] at hget
  exact forall_mem_respondAll (ones data16Bits) (P := fun w => w = 1) (fun _ _ => rfl) () ws _
    (List.mem_of_getElem? hget)

/-- A word of a transmit buffer that held zeros and is unchanged. -/
theorem eq_zero_of_kept {mem : Nat → Word data16Bits} {i : Nat} (hi : i < size)
    (h : words mem p size = words (fun _ => 0) p size) : mem (p + i) = 0 := by
  have hget := getElem?_words mem p size hi
  rw [h, getElem?_words _ p size hi] at hget
  exact (Option.some.inj hget).symm

/-- The caller's buffer would have to hold both what was sent and what was received. -/
theorem not_correct_of_overlap (hoverlap : ¬ Disjoint p q size) :
    ¬ Correct data16Bits enableDma (some p) (some q) size := by
  intro hcorrect
  rcases hcorrect (ones data16Bits) (fun _ => 0) () with ⟨hcompletes, hresult⟩
  rcases hcompletes.exists_done with ⟨t, ht, hdone⟩
  have hok := (hresult t ht).2 hdone
  simp only [Disjoint, not_or, Nat.not_le] at hoverlap
  have hcommon : ∃ i j, i < size ∧ j < size ∧ p + i = q + j := by
    rcases Nat.le_total p q with hle | hle
    · exact ⟨q - p, 0, by omega, by omega, by omega⟩
    · exact ⟨0, p - q, by omega, by omega, by omega⟩
  rcases hcommon with ⟨i, j, hi, hj, hij⟩
  have hone : t.mem (q + j) = 1 := eq_one_of_received hj (hok.received q rfl)
  have hzero : t.mem (p + i) = 0 := eq_zero_of_kept hi (hok.kept p rfl)
  rw [← hij, hzero] at hone
  exact one_ne_zero_word data16Bits hone.symm

/-- With DMA and no receive buffer, the answers are stored over the caller's transmit buffer. -/
theorem not_correct_dma_tx (hsize : 0 < size) : ¬ Correct data16Bits true (some p) none size := by
  intro hcorrect
  rcases hcorrect (ones data16Bits) (fun _ => 0) () with ⟨hcompletes, hresult⟩
  rcases hcompletes.exists_done with ⟨t, ht, hdone⟩
  have hkept := ((hresult t ht).2 hdone).kept p rfl
  rcases result_of_reachable (inTime_self p size) ht hdone with ⟨_, _, hmem⟩
  have hanswers := words_storeAnswers (ones data16Bits) (fun _ => 0) p p size ()
  rw [← hmem] at hanswers
  have hone : t.mem (p + 0) = 1 := eq_one_of_received hsize hanswers
  have hzero : t.mem (p + 0) = 0 := eq_zero_of_kept hsize hkept
  rw [hzero] at hone
  exact one_ne_zero_word data16Bits hone.symm

/-! ## Which transfers are correct -/

theorem blocking_correct_iff : Correct data16Bits false tx rx size ↔
    size = 0 ∨ ∃ p q, tx = some p ∧ rx = some q ∧ Disjoint p q size := by
  constructor
  · intro hcorrect
    by_contra hcond
    rcases not_or.1 hcond with ⟨hsize, hnone⟩
    have hpos : 0 < size := Nat.pos_of_ne_zero hsize
    cases tx with
    | none =>
        refine not_correct_of_fault ?_ hcorrect
        exact fault_of_src (by decide) rfl hpos
    | some p =>
        cases rx with
        | none =>
            refine not_correct_of_fault ?_ hcorrect
            exact fault_of_dst (by decide) rfl rfl hpos hpos
        | some q =>
            exact not_correct_of_overlap (fun h => hnone ⟨p, q, rfl, rfl, h⟩) hcorrect
  · rintro (hsize | ⟨p, q, rfl, rfl, h⟩)
    · exact correct_of_empty hsize
    · exact correct_of_disjoint h

theorem dma_correct_iff : Correct data16Bits true tx rx size ↔
    size = 0 ∨ (tx = none ∧ rx ≠ none) ∨
      ∃ p q, tx = some p ∧ rx = some q ∧ Disjoint p q size := by
  constructor
  · intro hcorrect
    by_contra hcond
    simp only [not_or] at hcond
    rcases hcond with ⟨hsize, hrx, hnone⟩
    have hpos : 0 < size := Nat.pos_of_ne_zero hsize
    -- Each setup that is left out has a memory and a device for which it goes wrong.
    cases tx with
    | none =>
        cases rx with
        | none =>
            refine not_correct_of_fault ?_ hcorrect
            exact fault_of_src (by decide) rfl hpos
        | some q => exact hrx ⟨rfl, Option.some_ne_none q⟩
    | some p =>
        cases rx with
        | none => exact not_correct_dma_tx hpos hcorrect
        | some q =>
            exact not_correct_of_overlap (fun h => hnone ⟨p, q, rfl, rfl, h⟩) hcorrect
  · rintro (hsize | ⟨rfl, hrx⟩ | ⟨p, q, rfl, rfl, h⟩)
    · exact correct_of_empty hsize
    · rcases Option.ne_none_iff_exists'.1 hrx with ⟨q, rfl⟩
      exact correct_dma_rx
    · exact correct_of_disjoint h

end Spi
end PicoCppSdk
