import Mathlib.Data.Finset.Card
import PicoCppSdk.Mcp2515Task.Mask
import PicoCppSdk.Mcp2515Task.Progress
import PicoCppSdk.Mcp2515Task.Wakeup

/-!
# Rest — left alone, the tasks come to rest

While no call begins and the controller raises no flag, only finitely many steps are left, in every
order: `canService` answers the flags that are set and waits, and the calls end or wait for an event
that is still to come.  A read that waits has no frame to wait for.
-/

namespace PicoCppSdk
namespace Mcp2515Task

open Atomic Mcp2515 Transition

variable {s t : Sys}

/-! ## The flags that are left -/

/-- The enabled flags among the bits of `x`. -/
def raised (x : Byte) : Finset Nat :=
  (Finset.range 8).filter fun i => (x &&& enabled).getLsbD i = true

section Raised

variable {x y : Byte} {i : Nat}

theorem mem_raised : i ∈ raised x ↔ x.getLsbD i = true ∧ enabled.getLsbD i = true := by
  simp only [raised, Finset.mem_filter, Finset.mem_range, BitVec.getLsbD_and, Bool.and_eq_true]
  constructor
  · exact fun h => h.2
  · intro h
    exact ⟨BitVec.lt_of_getLsbD h.1, h⟩

theorem card_raised_le (h : ∀ i, x.getLsbD i = true → y.getLsbD i = true) :
    (raised x).card ≤ (raised y).card := by
  apply Finset.card_le_card
  intro i hi
  rcases mem_raised.1 hi with ⟨hx, he⟩
  exact mem_raised.2 ⟨h i hx, he⟩

theorem card_raised_lt (h : ∀ i, x.getLsbD i = true → y.getLsbD i = true)
    (hy : y.getLsbD i = true) (hx : x.getLsbD i = false) (he : enabled.getLsbD i = true) :
    (raised x).card < (raised y).card := by
  apply Finset.card_lt_card
  refine Finset.ssubset_iff_exists_cons_subset.2 ⟨i, ?_, ?_⟩
  · intro hi
    exact absurd ((mem_raised.1 hi).1.symm.trans hx) (by decide)
  · intro k hk
    rcases Finset.mem_cons.1 hk with rfl | hk
    · exact mem_raised.2 ⟨hy, he⟩
    · rcases mem_raised.1 hk with ⟨hk, hke⟩
      exact mem_raised.2 ⟨h k hk, hke⟩

theorem card_raised_eq_zero : (raised x).card = 0 ↔ x &&& enabled = 0#8 := by
  rw [Finset.card_eq_zero, Finset.eq_empty_iff_forall_notMem]
  constructor
  · intro h
    apply BitVec.eq_of_getLsbD_eq
    intro i _
    rw [BitVec.getLsbD_zero, Bool.eq_false_iff]
    intro hi
    exact h i (mem_raised.2 (by simpa using hi))
  · intro h i hi
    have hbit : (x &&& enabled).getLsbD i = true := by
      simpa using mem_raised.1 hi
    rw [h, BitVec.getLsbD_zero] at hbit
    cases hbit

end Raised

/-! ## The steps that `canService` has left -/

namespace RunPc

/-- The flags that are taken after those of buffer `n`. -/
def behind : RxBuf → Byte
  | .b0 => RX1IF ||| TX0IF
  | .b1 => TX0IF

/-- The flags of `CANINTF` that this turn of the loop is still to clear. -/
def toClear : RunPc → Byte
  | .readEflg => MERRF ||| WAKIF ||| ERRIF
  | .clearErr _ => MERRF ||| WAKIF ||| ERRIF
  | .stampLoad f => f &&& (RX0IF ||| (RX1IF ||| TX0IF))
  | .stampStore f _ => f &&& (RX0IF ||| (RX1IF ||| TX0IF))
  | .rxClear n f => f &&& (rxFlag n ||| behind n)
  | .rxLoad n f => f &&& behind n
  | .rxStore n f _ => f &&& behind n
  | .txClear f => f &&& TX0IF
  | _ => 0#8

/-- The steps to the end of the turn, at most. -/
def rank : RunPc → Nat
  | .block => 0
  | .poll => 1
  | .await => 2
  | .awaitDelay => 3
  | .txGive => 2
  | .rxGive .b1 _ => 3
  | .rxGive .b0 _ => 4
  | .errGive => 2
  | .errStore _ => 3
  | .errLoad => 4
  | .reqNormal => 5
  | .settle => 6
  | .reqConfig => 7
  | .clearErr _ => 8
  | .readEflg => 9
  | .txStore _ _ => 5
  | .txLoad _ => 6
  | .txClear _ => 7
  | .rxStore .b1 _ _ => 8
  | .rxLoad .b1 _ => 9
  | .rxClear .b1 _ => 10
  | .rxStore .b0 _ _ => 11
  | .rxLoad .b0 _ => 12
  | .rxClear .b0 _ => 13
  | .stampStore _ _ => 14
  | .stampLoad _ => 15
  | .readIntf => 16

/-- A point at which the flags of `m` are still to be cleared, and fewer than `k` steps are left. -/
structure Ends (m : Byte) (k : Nat) (p : RunPc) : Prop where
  clears : ∀ i, m.getLsbD i = true → p.toClear.getLsbD i = true
  rank : p.rank < k
  known : p ≠ .readIntf

section Ends

variable {f m : Byte} {k l : Nat} {p : RunPc}

theorem Ends.mono (h : Ends m k p) (hle : k ≤ l) : Ends m l p :=
  ⟨h.clears, lt_of_lt_of_le h.rank hle, h.known⟩

theorem and_or_of_and_eq_zero {a b : Byte} (h : f &&& a = 0#8) : f &&& (a ||| b) = f &&& b := by
  rw [BitVec.and_or_distrib_left, h, BitVec.zero_or]

theorem ends_fromGiveTx : Ends 0#8 3 (goto (fromGiveTx f)) :=
  goto_fromGiveTx_of ⟨by simp, by decide, nofun⟩ ⟨by simp, by decide, nofun⟩

theorem ends_fromGive1 : Ends 0#8 4 (goto (fromGive1 f)) := by
  rw [goto_fromGive1]
  split
  · exact ⟨by simp, Nat.lt_succ_self 3, nofun⟩
  · exact ends_fromGiveTx.mono (by decide)

theorem ends_fromGive0 : Ends 0#8 5 (goto (fromGive0 f)) := by
  rw [goto_fromGive0]
  split
  · exact ⟨by simp, Nat.lt_succ_self 4, nofun⟩
  · exact ends_fromGive1.mono (by decide)

theorem ends_fromTx : Ends (f &&& TX0IF) 8 (goto (fromTx f)) := by
  rw [goto_fromTx]
  split
  · exact ⟨fun _ => id, Nat.lt_succ_self 7, nofun⟩
  · rename_i htx
    rw [not_not.1 htx]
    exact ends_fromGive0.mono (by decide)

theorem ends_fromRx1 : Ends (f &&& (RX1IF ||| TX0IF)) 11 (goto (fromRx1 f)) := by
  rw [goto_fromRx1]
  split
  · exact ⟨fun _ => id, Nat.lt_succ_self 10, nofun⟩
  · rename_i hrx
    rw [and_or_of_and_eq_zero (not_not.1 hrx)]
    exact ends_fromTx.mono (by decide)

theorem ends_fromRx0 : Ends (f &&& (RX0IF ||| (RX1IF ||| TX0IF))) 14 (goto (fromRx0 f)) := by
  rw [goto_fromRx0]
  split
  · exact ⟨fun _ => id, Nat.lt_succ_self 13, nofun⟩
  · rename_i hrx
    rw [and_or_of_and_eq_zero (not_not.1 hrx)]
    exact ends_fromRx1.mono (by decide)

theorem ends_fromStamp : Ends (f &&& (RX0IF ||| (RX1IF ||| TX0IF))) 16 (goto (fromStamp f)) := by
  rw [goto_fromStamp]
  split
  · exact ⟨fun _ => id, Nat.lt_succ_self 15, nofun⟩
  · exact ends_fromRx0.mono (by decide)

theorem ends_afterRx (n : RxBuf) (v : Byte) :
    Ends (f &&& behind n) (rank (.rxStore n f v)) (goto (afterRx n f)) := by
  cases n with
  | b0 => exact ends_fromRx1
  | b1 => exact ends_fromTx

theorem ends_afterGive (n : RxBuf) : Ends 0#8 (rank (.rxGive n f)) (goto (afterGive n f)) := by
  cases n with
  | b0 => exact ends_fromGive1
  | b1 => exact ends_fromGiveTx

/-- Without an enabled flag a turn does nothing. -/
theorem goto_fromIntf_poll (h : f &&& enabled = 0#8) : goto (fromIntf f) = .poll := by
  have hclear : ∀ m, enabled &&& m = m → ¬ f &&& m ≠ 0#8 := by
    intro m hm
    rw [not_not, ← hm, ← BitVec.and_assoc, h, BitVec.zero_and]
  have hrx0 := hclear RX0IF (by decide)
  have hrx1 := hclear RX1IF (by decide)
  have htx := hclear TX0IF (by decide)
  rw [goto_fromIntf, if_neg (hclear (MERRF ||| WAKIF ||| ERRIF) (by decide)), goto_fromStamp,
    if_neg (not_or.2 ⟨hrx0, hrx1⟩), goto_fromRx0, if_neg hrx0, goto_fromRx1, if_neg hrx1,
    goto_fromTx, if_neg htx, goto_fromGive0, if_neg hrx0, goto_fromGive1, if_neg hrx1,
    goto_fromGiveTx, if_neg htx]

end Ends

end RunPc

namespace Sys

/-- The steps that `canService` has left while no flag rises, not counting what wakes it. -/
def canLeft (s : Sys) : Nat :=
  if s.can = .readIntf then
    max 2 (20 * (raised (s.regs CANINTF)).card)
  else
    20 * (raised (s.regs CANINTF &&& ~~~s.can.toClear)).card + s.can.rank

theorem getLsbD_and_not {x m : Byte} {i : Nat} :
    (x &&& ~~~m).getLsbD i = true ↔ x.getLsbD i = true ∧ m.getLsbD i = false := by
  rw [BitVec.getLsbD_and, BitVec.getLsbD_not, Bool.and_eq_true, Bool.and_eq_true,
    decide_eq_true_iff, Bool.not_eq_true']
  exact ⟨fun h => ⟨h.1, h.2.2⟩, fun h => ⟨h.1, BitVec.lt_of_getLsbD h.1, h.2⟩⟩

/-- `canService` goes on in its turn, and clears the flags of `m`. -/
theorem canLeft_lt_of_clear {p : RunPc} (hs : s.can = p) (hp : p ≠ .readIntf)
    (ht : t.can.rank < p.rank) (hread : t.can ≠ .readIntf) {m : Byte}
    (hintf : ∀ i, (t.regs CANINTF).getLsbD i = ((s.regs CANINTF).getLsbD i && !m.getLsbD i))
    (hclears : ∀ i, p.toClear.getLsbD i = true →
      m.getLsbD i = true ∨ t.can.toClear.getLsbD i = true) :
    t.canLeft < s.canLeft := by
  have hle : (raised (t.regs CANINTF &&& ~~~t.can.toClear)).card ≤
      (raised (s.regs CANINTF &&& ~~~p.toClear)).card := by
    apply card_raised_le
    intro i hi
    rcases getLsbD_and_not.1 hi with ⟨hset, hleft⟩
    rw [hintf i, Bool.and_eq_true, Bool.not_eq_true'] at hset
    refine getLsbD_and_not.2 ⟨hset.1, ?_⟩
    -- A flag that was to be cleared has been cleared now, or still is to be.
    rw [Bool.eq_false_iff]
    intro hclear
    rcases hclears i hclear with hm | ht
    · exact absurd (hm.symm.trans hset.2) (by decide)
    · exact absurd (ht.symm.trans hleft) (by decide)
  rw [canLeft, canLeft, if_neg hread, if_neg (hs ▸ hp), hs]
  omega

/-- `canService` goes on in its turn, and leaves the flags alone. -/
theorem canLeft_lt_of_write {p : RunPc} (hs : s.can = p) (hp : p ≠ .readIntf) (q : RunPc)
    (ht : t.can = q) (hends : RunPc.Ends p.toClear p.rank q)
    (hintf : t.regs CANINTF = s.regs CANINTF) : t.canLeft < s.canLeft := by
  subst ht
  refine canLeft_lt_of_clear (m := 0#8) hs hp hends.rank hends.known ?_
    fun i hi => Or.inr (hends.clears i hi)
  intro i
  rw [hintf, BitVec.getLsbD_zero, Bool.not_false, Bool.and_true]

theorem canLeft_lt_of_ends {p : RunPc} (hs : s.can = p) (hp : p ≠ .readIntf) (q : RunPc)
    (ht : t.can = q) (hends : RunPc.Ends p.toClear p.rank q) (hregs : t.regs = s.regs) :
    t.canLeft < s.canLeft :=
  canLeft_lt_of_write hs hp q ht hends (by rw [hregs])

/-- `CANINTF` after `bitModify(CANINTF, m, 0)`. -/
theorem intf_clear (s : Sys) (m : Byte) (i : Nat) :
    ((s.regs.modify CANINTF m 0#8) CANINTF).getLsbD i =
      ((s.regs CANINTF).getLsbD i && !m.getLsbD i) := by
  rw [Regs.modify_self, getLsbD_clear]

/-- `canService` has seen a flag, and this turn is going to clear it. -/
theorem canLeft_lt_of_seen {m : Byte} {k : Nat} (hk : k ≤ 16) (hs : s.can = .readIntf)
    (ht : RunPc.Ends m k t.can) (hregs : t.regs = s.regs)
    (hseen : ∃ i, m.getLsbD i = true ∧ (s.regs CANINTF).getLsbD i = true ∧
      enabled.getLsbD i = true) : t.canLeft < s.canLeft := by
  rcases hseen with ⟨i, hm, hset, hen⟩
  have hlt : (raised (s.regs CANINTF &&& ~~~t.can.toClear)).card <
      (raised (s.regs CANINTF)).card := by
    refine card_raised_lt (fun j hj => (getLsbD_and_not.1 hj).1) hset ?_ hen
    rw [Bool.eq_false_iff]
    intro hleft
    exact absurd ((ht.clears i hm).symm.trans (getLsbD_and_not.1 hleft).2) (by decide)
  have hrank := ht.rank
  rw [canLeft, canLeft, if_neg ht.known, if_pos hs, hregs]
  omega

theorem exists_flag {x m : Byte} (h : x &&& m ≠ 0#8) :
    ∃ i, m.getLsbD i = true ∧ x.getLsbD i = true := by
  by_contra hnone
  apply h
  apply BitVec.eq_of_getLsbD_eq
  intro i _
  rw [BitVec.getLsbD_zero, BitVec.getLsbD_and, Bool.eq_false_iff]
  intro hi
  rw [Bool.and_eq_true] at hi
  exact hnone ⟨i, hi.2, hi.1⟩

/-- The enabled flags are the error flags and those of the three buffers. -/
theorem enabled_eq :
    enabled = (MERRF ||| WAKIF ||| ERRIF) ||| (RX0IF ||| (RX1IF ||| TX0IF)) := by
  decide

theorem canLeft_readIntf (hpc : s.can = .readIntf) :
    canLeft { s with can := RunPc.goto (RunPc.fromIntf (s.regs CANINTF)) } < s.canLeft := by
  by_cases hsilent : s.regs CANINTF &&& enabled = 0#8
  · -- No enabled flag is set, so nothing is done in this turn.
    have hzero : (raised (s.regs CANINTF)).card = 0 := card_raised_eq_zero.2 hsilent
    have hle : (raised (s.regs CANINTF &&& ~~~RunPc.poll.toClear)).card ≤
        (raised (s.regs CANINTF)).card :=
      card_raised_le fun j hj => (getLsbD_and_not.1 hj).1
    rw [RunPc.goto_fromIntf_poll hsilent, canLeft, canLeft, if_pos hpc, if_neg nofun]
    dsimp only [RunPc.rank]
    omega
  · by_cases herr : s.regs CANINTF &&& (MERRF ||| WAKIF ||| ERRIF) ≠ 0#8
    · have hgo : RunPc.goto (RunPc.fromIntf (s.regs CANINTF)) = .readEflg := by
        rw [RunPc.goto_fromIntf, if_pos herr]
      rw [hgo]
      rcases exists_flag herr with ⟨i, hm, hset⟩
      refine canLeft_lt_of_seen (m := MERRF ||| WAKIF ||| ERRIF) (k := 16) le_rfl hpc
        ⟨fun _ => id, show 9 < 16 by decide, nofun⟩ rfl ⟨i, hm, hset, ?_⟩
      rw [enabled_eq, BitVec.getLsbD_or, hm, Bool.true_or]
    · have hgo : RunPc.goto (RunPc.fromIntf (s.regs CANINTF)) =
          RunPc.goto (RunPc.fromStamp (s.regs CANINTF)) := by
        rw [RunPc.goto_fromIntf, if_neg herr]
      have hbuf : s.regs CANINTF &&& (RX0IF ||| (RX1IF ||| TX0IF)) ≠ 0#8 := by
        rwa [enabled_eq, BitVec.and_or_distrib_left, not_not.1 herr, BitVec.zero_or] at hsilent
      rw [hgo]
      rcases exists_flag hbuf with ⟨i, hm, hset⟩
      refine canLeft_lt_of_seen le_rfl hpc RunPc.ends_fromStamp rfl ⟨i, ?_, hset, ?_⟩
      · rw [BitVec.getLsbD_and, hset, hm]
        rfl
      · rw [enabled_eq, BitVec.getLsbD_or, hm, Bool.or_true]

/-- What `canService` and the semaphore that wakes it have left: a wait takes a token. -/
def canFuel (s : Sys) : Nat :=
  s.canLeft + 2 * s.intSem.toNat

end Sys

/-- Every step of `canService` uses something up. -/
theorem CanMove.canFuel_lt (h : CanMove s t) (hawait : s.can = .await → t.can = .poll) :
    t.canFuel < s.canFuel := by
  -- All but the wait leave the semaphore alone.
  have hsem : t.intSem = s.intSem → t.canLeft < s.canLeft → t.canFuel < s.canFuel := by
    intro hsame hlt
    rw [Sys.canFuel, Sys.canFuel, hsame]
    omega
  have hzero : ∀ {q : RunPc} (i : Nat), (0#8 : Byte).getLsbD i = true →
      q.toClear.getLsbD i = true := by
    simp
  cases h with
  | awaitDone hpc =>
      exact hsem rfl (Sys.canLeft_lt_of_ends hpc nofun .poll rfl ⟨hzero, by decide, nofun⟩ rfl)
  | awaitMore hpc => cases hawait hpc
  | awaitDelay hpc =>
      exact hsem rfl (Sys.canLeft_lt_of_ends hpc nofun .await rfl ⟨hzero, by decide, nofun⟩ rfl)
  | pollHigh hpc hint =>
      exact hsem rfl (Sys.canLeft_lt_of_ends hpc nofun .block rfl ⟨hzero, by decide, nofun⟩ rfl)
  | pollLow hpc hint =>
      refine hsem rfl ?_
      -- The line is low, so a flag is left for this turn.
      have hpos : (raised (s.regs CANINTF)).card ≠ 0 := by
        intro hcard
        simp only [Sys.intHigh, card_raised_eq_zero.1 hcard] at hint
        cases hint
      have hsame : s.regs CANINTF &&& ~~~RunPc.poll.toClear = s.regs CANINTF := by
        rw [show RunPc.poll.toClear = 0#8 from rfl, BitVec.not_zero, BitVec.and_allOnes]
      rw [Sys.canLeft, Sys.canLeft, if_pos rfl, hpc, if_neg nofun, hsame]
      dsimp only [RunPc.rank]
      omega
  | block hpc hset =>
      have hlt : Sys.canLeft { s with intSem := false, can := .poll } = s.canLeft + 1 := by
        rw [Sys.canLeft, Sys.canLeft, if_neg nofun, hpc, if_neg nofun]
        rfl
      rw [Sys.canFuel, Sys.canFuel, hlt, hset]
      exact Nat.lt_succ_self _
  | readIntf hpc => exact hsem rfl (Sys.canLeft_readIntf hpc)
  | readEflg hpc =>
      exact hsem rfl (Sys.canLeft_lt_of_ends hpc nofun (.clearErr (s.regs EFLG)) rfl
        ⟨fun _ => id, Nat.lt_succ_self 8, nofun⟩ rfl)
  | clearErr eflg hpc =>
      refine hsem rfl (Sys.canLeft_lt_of_clear (m := MERRF ||| WAKIF ||| ERRIF) hpc nofun ?_ ?_ ?_
        fun i hi => Or.inl hi)
      · dsimp only
        split <;> exact (show _ < 8 by decide)
      · dsimp only
        split <;> nofun
      · exact Sys.intf_clear s _
  | reqConfig hpc =>
      have hintf : (s.regs.write CANCTRL REQOP_CONFIG) CANINTF = s.regs CANINTF :=
        Regs.write_of_ne (by decide) _ _
      exact hsem rfl
        (Sys.canLeft_lt_of_write hpc nofun .settle rfl ⟨hzero, by decide, nofun⟩ hintf)
  | settle hpc =>
      exact hsem rfl (Sys.canLeft_lt_of_ends hpc nofun .reqNormal rfl ⟨hzero, by decide, nofun⟩ rfl)
  | reqNormal hpc =>
      have hintf : (s.regs.write CANCTRL (REQOP_NORMAL ||| CLKOUT_ENABLED)) CANINTF =
          s.regs CANINTF :=
        Regs.write_of_ne (by decide) _ _
      exact hsem rfl
        (Sys.canLeft_lt_of_write hpc nofun .errLoad rfl ⟨hzero, by decide, nofun⟩ hintf)
  | errLoad hpc =>
      exact hsem rfl (Sys.canLeft_lt_of_ends hpc nofun (.errStore s.pendingTxBuf) rfl
        ⟨hzero, Nat.lt_succ_self 3, nofun⟩ rfl)
  | errStore v hpc =>
      exact hsem rfl (Sys.canLeft_lt_of_ends hpc nofun .errGive rfl
        ⟨hzero, Nat.lt_succ_self 2, nofun⟩ rfl)
  | errGive hpc =>
      exact hsem rfl (Sys.canLeft_lt_of_ends hpc nofun .poll rfl ⟨hzero, by decide, nofun⟩ rfl)
  | stampLoad f hpc =>
      exact hsem rfl (Sys.canLeft_lt_of_ends hpc nofun (.stampStore f s.lastIntTime) rfl
        ⟨fun _ => id, Nat.lt_succ_self 14, nofun⟩ rfl)
  | stampStore f now hpc =>
      exact hsem rfl (Sys.canLeft_lt_of_ends hpc nofun _ rfl RunPc.ends_fromRx0 rfl)
  | rxClear n f hpc =>
      refine hsem rfl (Sys.canLeft_lt_of_clear (m := rxFlag n) hpc nofun ?_ nofun
        (Sys.intf_clear s _) ?_)
      · cases n <;> exact Nat.lt_succ_self _
      · intro i hi
        -- The flag of `n` is cleared now, those behind it are still to come.
        have hbits : f.getLsbD i = true ∧
            ((rxFlag n).getLsbD i = true ∨ (RunPc.behind n).getLsbD i = true) := by
          simpa [RunPc.toClear] using hi
        rcases hbits with ⟨hf, hn | hbehind⟩
        · exact Or.inl hn
        · exact Or.inr (by simp [RunPc.toClear, hf, hbehind])
  | rxLoad n f hpc =>
      refine hsem rfl (Sys.canLeft_lt_of_ends hpc nofun (.rxStore n f s.pendingRxBuf) rfl
        ⟨fun _ => id, ?_, nofun⟩ rfl)
      cases n <;> exact Nat.lt_succ_self _
  | rxStore n f v hpc =>
      exact hsem rfl (Sys.canLeft_lt_of_ends hpc nofun _ rfl (RunPc.ends_afterRx n v) rfl)
  | txClear f hpc =>
      refine hsem rfl (Sys.canLeft_lt_of_clear (m := TX0IF) hpc nofun (Nat.lt_succ_self 6) nofun
        (Sys.intf_clear s _) ?_)
      intro i hi
      rw [RunPc.toClear, BitVec.getLsbD_and, Bool.and_eq_true] at hi
      exact Or.inl hi.2
  | txLoad f hpc =>
      exact hsem rfl (Sys.canLeft_lt_of_ends hpc nofun (.txStore f s.pendingTxBuf) rfl
        ⟨hzero, Nat.lt_succ_self 5, nofun⟩ rfl)
  | txStore f v hpc =>
      exact hsem rfl (Sys.canLeft_lt_of_ends hpc nofun _ rfl RunPc.ends_fromGive0 rfl)
  | rxGive n f hpc =>
      exact hsem rfl (Sys.canLeft_lt_of_ends hpc nofun _ rfl (RunPc.ends_afterGive n) rfl)
  | txGive hpc =>
      exact hsem rfl (Sys.canLeft_lt_of_ends hpc nofun .poll rfl ⟨hzero, by decide, nofun⟩ rfl)

/-- `canService` raises no flag. -/
theorem CanMove.intf_le (h : CanMove s t) (i : Nat) (hi : (t.regs CANINTF).getLsbD i = true) :
    (s.regs CANINTF).getLsbD i = true := by
  have hclear : ∀ m, ((s.regs.modify CANINTF m 0#8) CANINTF).getLsbD i = true →
      (s.regs CANINTF).getLsbD i = true := by
    intro m hm
    rw [Sys.intf_clear, Bool.and_eq_true] at hm
    exact hm.1
  cases h with
  | clearErr eflg hpc => exact hclear _ hi
  | rxClear n f hpc => exact hclear _ hi
  | txClear f hpc => exact hclear _ hi
  | reqConfig hpc =>
      dsimp only at hi
      rwa [Regs.write_of_ne (by decide)] at hi
  | reqNormal hpc =>
      dsimp only at hi
      rwa [Regs.write_of_ne (by decide)] at hi
  | _ => exact hi

/-! ## The steps that the calls have left -/

instance finiteByte : Finite Byte :=
  .of_injective BitVec.toFin fun _ _ h => BitVec.eq_of_toFin_eq h

instance finiteAns : ∀ a : BusAct, Finite a.Ans
  | .readByte _ => finiteByte
  | .writeByte _ _ => inferInstanceAs (Finite Unit)
  | .bitModify _ _ _ => inferInstanceAs (Finite Unit)
  | .resetMcp2515 => inferInstanceAs (Finite Unit)
  | .lock => inferInstanceAs (Finite Unit)
  | .unlock => inferInstanceAs (Finite Unit)

/-- At most `n` steps to the return of the read. -/
def ReadPc.Within (n : Nat) : ReadPc → Prop
  | .take buf => ∃ m, m + 5 ≤ n ∧ ∀ b, (rxRead b buf).Within m
  | .stamp buf => ∃ m, m + 4 ≤ n ∧ ∀ b, (rxRead b buf).Within m
  | .test buf _ => ∃ m, m + 3 ≤ n ∧ ∀ b, (rxRead b buf).Within m
  | .load _ buf _ => ∃ m, m + 2 ≤ n ∧ ∀ b, (rxRead b buf).Within m
  | .store _ buf _ _ => ∃ m, m + 1 ≤ n ∧ ∀ b, (rxRead b buf).Within m
  | .reading _ _ a k => (Prog.act a k).Within n

/-- At most `n` steps to the return of the send. -/
def SendPc.Within (n : Nat) : SendPc → Prop
  | .test c => ∃ m, m + 4 ≤ n ∧ (txBuffer0Send c.canId c.buf c.len).Within m
  | .take c => ∃ m, m + 3 ≤ n ∧ (txBuffer0Send c.canId c.buf c.len).Within m
  | .load c => ∃ m, m + 2 ≤ n ∧ (txBuffer0Send c.canId c.buf c.len).Within m
  | .store c _ => ∃ m, m + 1 ≤ n ∧ (txBuffer0Send c.canId c.buf c.len).Within m
  | .sending _ a k => (Prog.act a k).Within n

theorem ReadPc.exists_within (p : ReadPc) : ∃ n, p.Within n := by
  have hread : ∀ buf, ∃ m, ∀ b, (rxRead b buf).Within m := by
    intro buf
    rcases (rxRead .b0 buf).exists_within with ⟨m₀, h₀⟩
    rcases (rxRead .b1 buf).exists_within with ⟨m₁, h₁⟩
    refine ⟨max m₀ m₁, fun b => ?_⟩
    cases b with
    | b0 => exact h₀.mono (le_max_left _ _)
    | b1 => exact h₁.mono (le_max_right _ _)
  cases p with
  | reading n now a k => exact (Prog.act a k).exists_within
  | take buf => exact (hread buf).imp' (· + 5) fun m hm => ⟨m, le_rfl, hm⟩
  | stamp buf => exact (hread buf).imp' (· + 4) fun m hm => ⟨m, le_rfl, hm⟩
  | test buf now => exact (hread buf).imp' (· + 3) fun m hm => ⟨m, le_rfl, hm⟩
  | load n buf now => exact (hread buf).imp' (· + 2) fun m hm => ⟨m, le_rfl, hm⟩
  | store n buf now v => exact (hread buf).imp' (· + 1) fun m hm => ⟨m, le_rfl, hm⟩

theorem SendPc.exists_within (p : SendPc) : ∃ n, p.Within n := by
  have hsend : ∀ c : SendCall, ∃ m, (txBuffer0Send c.canId c.buf c.len).Within m :=
    fun c => Prog.exists_within _
  cases p with
  | sending c a k => exact (Prog.act a k).exists_within
  | test c => exact (hsend c).imp' (· + 4) fun m hm => ⟨m, le_rfl, hm⟩
  | take c => exact (hsend c).imp' (· + 3) fun m hm => ⟨m, le_rfl, hm⟩
  | load c => exact (hsend c).imp' (· + 2) fun m hm => ⟨m, le_rfl, hm⟩
  | store c v => exact (hsend c).imp' (· + 1) fun m hm => ⟨m, le_rfl, hm⟩

/-- The rest of a program that has performed an action is shorter. -/
theorem within_rest {α : Type} {a : BusAct} {k : a.Ans → Driver α} {n : Nat}
    (h : (Prog.act a k).Within n) (x : a.Ans) : ∃ m, m < n ∧ (k x).Within m := by
  cases n with
  | zero => exact h.elim
  | succ n => exact ⟨n, Nat.lt_succ_self n, h x⟩

/-- Every step of the reader takes it closer to the return. -/
theorem ReaderMove.within (h : ReaderMove s t) {p : ReadPc} (hp : s.reader = some p) {n : Nat}
    (hn : p.Within n) : ∃ m, m < n ∧ ∀ q, t.reader = some q → q.Within m := by
  cases h with
  | take buf hpc hsem =>
      cases hp.symm.trans hpc
      rcases hn with ⟨m, hm, hread⟩
      refine ⟨m + 4, by omega, fun q hq => ?_⟩
      cases hq
      exact ⟨m, le_rfl, hread⟩
  | stamp buf hpc =>
      cases hp.symm.trans hpc
      rcases hn with ⟨m, hm, hread⟩
      refine ⟨m + 3, by omega, fun q hq => ?_⟩
      cases hq
      exact ⟨m, le_rfl, hread⟩
  | test buf now hpc =>
      cases hp.symm.trans hpc
      rcases hn with ⟨m, hm, hread⟩
      refine ⟨m + 2, by omega, fun q hq => ?_⟩
      simp only [ReadPc.fromTest, Option.some.injEq] at hq
      split at hq <;> (subst hq; exact ⟨m, le_rfl, hread⟩)
  | load b buf now hpc =>
      cases hp.symm.trans hpc
      rcases hn with ⟨m, hm, hread⟩
      refine ⟨m + 1, by omega, fun q hq => ?_⟩
      cases hq
      exact ⟨m, le_rfl, hread⟩
  | store b buf now v a k hpc hread =>
      cases hp.symm.trans hpc
      rcases hn with ⟨m, hm, hbound⟩
      refine ⟨m, hm, fun q hq => ?_⟩
      cases hq
      have hnext := hbound b
      rwa [hread] at hnext
  | reading b now a k a' k' hpc hrest =>
      cases hp.symm.trans hpc
      rcases within_rest hn (a.onRegs s.regs).1 with ⟨m, hm, hbound⟩
      rw [hrest] at hbound
      exact ⟨m, hm, fun q hq => by cases hq; exact hbound⟩
  | done b now a k x hpc hrest =>
      cases hp.symm.trans hpc
      rcases within_rest hn (a.onRegs s.regs).1 with ⟨m, hm, -⟩
      exact ⟨m, hm, fun q hq => by cases hq⟩

theorem SenderMove.inSend (h : SenderMove s t) : ∃ p, s.sender = some p := by
  cases h <;> exact ⟨_, ‹_›⟩

/-- Every step of the sender takes it closer to the return. -/
theorem SenderMove.within (h : SenderMove s t) {p : SendPc} (hp : s.sender = some p) {n : Nat}
    (hn : p.Within n) : ∃ m, m < n ∧ ∀ q, t.sender = some q → q.Within m := by
  cases h with
  | test c hpc =>
      cases hp.symm.trans hpc
      rcases hn with ⟨m, hm, hsend⟩
      refine ⟨m + 3, by omega, fun q hq => ?_⟩
      simp only [SendPc.fromTest, Option.some.injEq] at hq
      split at hq
      · subst hq
        exact ⟨m, le_rfl, hsend⟩
      · subst hq
        exact ⟨m, by omega, hsend⟩
  | take c hpc hsem =>
      cases hp.symm.trans hpc
      rcases hn with ⟨m, hm, hsend⟩
      refine ⟨m + 2, by omega, fun q hq => ?_⟩
      cases hq
      exact ⟨m, le_rfl, hsend⟩
  | load c hpc =>
      cases hp.symm.trans hpc
      rcases hn with ⟨m, hm, hsend⟩
      refine ⟨m + 1, by omega, fun q hq => ?_⟩
      cases hq
      exact ⟨m, le_rfl, hsend⟩
  | store c v a k hpc hsend =>
      cases hp.symm.trans hpc
      rcases hn with ⟨m, hm, hbound⟩
      rw [hsend] at hbound
      exact ⟨m, hm, fun q hq => by cases hq; exact hbound⟩
  | sending c a k a' k' hpc hrest =>
      cases hp.symm.trans hpc
      rcases within_rest hn (a.onRegs s.regs).1 with ⟨m, hm, hbound⟩
      rw [hrest] at hbound
      exact ⟨m, hm, fun q hq => by cases hq; exact hbound⟩
  | done c a k hpc hrest =>
      cases hp.symm.trans hpc
      rcases within_rest hn (a.onRegs s.regs).1 with ⟨m, hm, -⟩
      exact ⟨m, hm, fun q hq => by cases hq⟩

/-! ## Left alone -/

/-- A step of a task or of `irqHandler`. -/
def Label.quiet : Label → Bool
  | .canService => true
  | .reader => true
  | .sender => true
  | .irqHandler _ => true
  | _ => false

/-- What is sent fits into TXB0. -/
def Payloads (_ : Sys) : Label → Prop
  | .submit c => c.len ≤ 8#8
  | _ => True

instance decidablePayloads (s : Sys) : (l : Label) → Decidable (Payloads s l)
  | .submit c => inferInstanceAs (Decidable (c.len ≤ 8#8))
  | .canService => inferInstanceAs (Decidable True)
  | .reader => inferInstanceAs (Decidable True)
  | .sender => inferInstanceAs (Decidable True)
  | .receive _ => inferInstanceAs (Decidable True)
  | .irqHandler _ => inferInstanceAs (Decidable True)
  | .arrive _ => inferInstanceAs (Decidable True)
  | .complete => inferInstanceAs (Decidable True)
  | .raise _ _ => inferInstanceAs (Decidable True)

namespace Sys

/-- The steps without a new call and without an event of the controller. -/
def quietStep (l : Label) (s : Sys) : Option Sys :=
  if l.quiet then s.step l else none

/-- `canService` has answered every flag and waits, and each call waits: a read for a frame, a send
for the completion of the one before it. -/
structure Answered (s : Sys) : Prop where
  waits : s.can = .block
  line : s.intHigh = true
  reader : ∀ p, s.reader = some p → (∃ buf, p = .take buf) ∧ s.rxSem = 0
  sender : ∀ p, s.sender = some p → (∃ c, p = .take c) ∧ s.regs TXB0CTRL &&& TXREQ ≠ 0#8

/-- What holds in every run. -/
structure Sound (s : Sys) : Prop where
  created : s.created = true
  calls : s.InCalls
  writes : s.SenderWrites
  alert : s.Alert
  owed : s.TxOwed

theorem created_of_step {l : Label} (h : Sys.step l s = some t) : t.created = s.created := by
  rcases Option.map_eq_some_iff.1 h with ⟨u, hmove, rfl⟩
  cases l with
  | canService => cases canMove_of_canStep hmove <;> rfl
  | reader => cases readerMove_of_readerStep hmove <;> rfl
  | sender => cases senderMove_of_senderStep hmove <;> rfl
  | receive buf =>
      rcases eq_of_receive hmove with ⟨-, rfl⟩
      rfl
  | submit c =>
      rcases eq_of_submit hmove with ⟨-, rfl⟩
      rfl
  | irqHandler now =>
      rcases eq_of_irqHandler hmove with ⟨-, rfl⟩
      rfl
  | arrive img =>
      cases hmove
      simp only [latch, arrive]
      split <;> rfl
  | complete =>
      simp only [move, complete] at hmove
      split at hmove <;> cases hmove
      rfl
  | raise flags eflg =>
      cases hmove
      rfl

theorem Sound.step {l : Label} (h : s.Sound) (hok : Payloads s l) (hstep : Sys.step l s = some t) :
    t.Sound where
  created := (created_of_step hstep).trans h.created
  calls := h.calls.step hstep
  writes := h.writes.systemStep h.calls.reads (by rintro c rfl; exact hok) hstep
  alert := h.alert.step hstep
  owed := h.owed.step h.calls hstep

theorem Sound.boot (r : Regs) : (Sys.boot r).Sound :=
  ⟨rfl, .boot r, .boot r, nofun, .boot r⟩

/-- At most `n` quiet steps are left. -/
def Left (n : Nat) (s : Sys) : Prop :=
  ∃ i j, s.Sound ∧ (∀ p, s.reader = some p → p.Within i) ∧ (∀ p, s.sender = some p → p.Within j) ∧
    s.canFuel + 3 * s.edge.toNat + i + j ≤ n

theorem canFuel_congr (hcan : t.can = s.can) (hintf : t.regs CANINTF = s.regs CANINTF)
    (hsem : t.intSem = s.intSem) : t.canFuel = s.canFuel := by
  simp only [canFuel, canLeft, hcan, hintf, hsem]

/-- A move that lowers no line latches no edge. -/
theorem latch_edge (h : ∀ i, (t.regs CANINTF).getLsbD i = true → (s.regs CANINTF).getLsbD i = true) :
    (s.latch t).edge = t.edge := by
  have hline : (s.intHigh && !t.intHigh) = false := by
    rw [Bool.and_eq_false_iff, Bool.not_eq_false']
    by_cases hs : s.intHigh = true
    · right
      have hzero := Nat.le_zero.1 (card_raised_eq_zero.2 (eq_of_beq hs) ▸ card_raised_le h)
      exact beq_iff_eq.2 (card_raised_eq_zero.1 hzero)
    · exact Or.inl (Bool.eq_false_iff.2 hs)
  simp only [latch, hline, Bool.or_false]

/-- The semaphores exist, so `run` goes on to its second loop. -/
theorem can_of_await (hpc : s.can = .await) (hcreated : s.created = true)
    (h : s.canStep = some t) : t.can = .poll := by
  have hnext : RunPc.next .await s.created = .inr .serve := by
    rw [hcreated]
    rfl
  rw [canStep_at hpc] at h
  simp only [RunPc.act, perform, Option.map_some, hnext, Option.some.injEq] at h
  exact h ▸ rfl

/-- Every quiet step uses something up. -/
theorem Left.step {l : Label} {n : Nat} (h : s.Left n) (hstep : quietStep l s = some t) :
    ∃ m, m < n ∧ t.Left m := by
  rcases h with ⟨i, j, hsound, hi, hj, hle⟩
  have hquiet : l.quiet = true := by
    by_contra hnot
    simp [quietStep, hnot] at hstep
  rw [quietStep, if_pos hquiet] at hstep
  have hok : Payloads s l := by
    cases l <;> trivial
  have ht := hsound.step hok hstep
  rcases Option.map_eq_some_iff.1 hstep with ⟨u, hmove, rfl⟩
  cases l with
  | canService =>
      have hm := canMove_of_canStep hmove
      rcases hm.frame with ⟨hreader, hsender, -, -⟩
      have hfuel := hm.canFuel_lt fun hpc => can_of_await hpc hsound.created hmove
      have hedge : (s.latch u).edge = s.edge := by
        rw [latch_edge hm.intf_le]
        cases hm <;> rfl
      refine ⟨_, ?_, i, j, ht, fun p hp => hi p (hreader ▸ hp), fun p hp => hj p (hsender ▸ hp),
        le_rfl⟩
      rw [hedge]
      change u.canFuel + _ + _ + _ < n
      omega
  | reader =>
      have hm := readerMove_of_readerStep hmove
      have hregs := hm.regs hsound.calls.reads
      rcases hm.inCall with ⟨p, hp⟩
      rcases hm.within hp (hi p hp) with ⟨k, hk, hwithin⟩
      have hedge : (s.latch u).edge = s.edge := by
        rw [latch_edge fun i hi => by rwa [hregs] at hi]
        cases hm <;> rfl
      have hfuel : u.canFuel = s.canFuel :=
        canFuel_congr hm.frame.1 (by rw [hregs]) (by cases hm <;> rfl)
      refine ⟨_, ?_, k, j, ht, hwithin, fun p hp => hj p (hm.frame.2.1 ▸ hp), le_rfl⟩
      rw [hedge]
      change u.canFuel + _ + _ + _ < n
      omega
  | sender =>
      have hm := senderMove_of_senderStep hmove
      have hintf : u.regs CANINTF = s.regs CANINTF :=
        hsound.writes.regs hm (by decide) (by decide)
      rcases hm.inSend with ⟨p, hp⟩
      rcases hm.within hp (hj p hp) with ⟨k, hk, hwithin⟩
      have hedge : (s.latch u).edge = s.edge := by
        rw [latch_edge fun i hi => by rwa [hintf] at hi]
        cases hm <;> rfl
      have hfuel : u.canFuel = s.canFuel :=
        canFuel_congr hm.frame.1 hintf (by cases hm <;> rfl)
      refine ⟨_, ?_, i, k, ht, fun p hp => hi p (hm.frame.2.1 ▸ hp), hwithin, le_rfl⟩
      rw [hedge]
      change u.canFuel + _ + _ + _ < n
      omega
  | irqHandler now =>
      rcases eq_of_irqHandler hmove with ⟨hedge, rfl⟩
      refine ⟨_, ?_, i, j, ht, hi, hj, le_rfl⟩
      -- The edge becomes a token.
      have hafter : (s.latch { s with edge := false, lastIntTime := now, intSem := true }).edge =
          false := latch_edge fun _ => id
      have hfuel : Sys.canFuel { s with edge := false, lastIntTime := now, intSem := true } ≤
          s.canFuel + 2 := by
        simp only [canFuel, canLeft, Bool.toNat_true]
        omega
      rw [hedge, Bool.toNat_true] at hle
      rw [hafter, Bool.toNat_false]
      change Sys.canFuel { s with edge := false, lastIntTime := now, intSem := true } + _ + _ + _ < n
      omega
  | _ => cases hquiet

/-! ## Where nothing moves -/

/-- `canService` stops at its wait only. -/
theorem block_of_canStep (h : s.canStep = none) : s.can = .block ∧ s.intSem = false := by
  cases hpc : s.can with
  | block =>
      refine ⟨rfl, ?_⟩
      rw [Bool.eq_false_iff]
      intro hsem
      rw [canStep_at hpc] at h
      simp [RunPc.act, perform, take, hsem] at h
  | _ =>
      rw [canStep_at hpc] at h
      exact absurd h (Option.some_ne_none _)

/-- A read stops at the wait for `_rxSemaphore` only. -/
theorem take_of_readerStep (h : s.readerStep = none) {p : ReadPc} (hp : s.reader = some p) :
    (∃ buf, p = .take buf) ∧ s.rxSem = 0 := by
  rw [readerStep_at hp] at h
  cases p with
  | take buf =>
      refine ⟨⟨buf, rfl⟩, ?_⟩
      by_contra hpos
      simp [ReadPc.act, perform, take, Nat.pos_of_ne_zero hpos] at h
  | _ => exact absurd h (Option.some_ne_none _)

/-- A send stops at the wait for `_txSemaphore` only. -/
theorem take_of_senderStep (h : s.senderStep = none) {p : SendPc} (hp : s.sender = some p) :
    (∃ c, p = .take c) ∧ s.txSem = false := by
  rw [senderStep_at hp] at h
  cases p with
  | take c =>
      refine ⟨⟨c, rfl⟩, ?_⟩
      rw [Bool.eq_false_iff]
      intro hsem
      simp [SendPc.act, perform, take, hsem] at h
  | _ => exact absurd h (Option.some_ne_none _)

/-- Nothing of the program can move. -/
structure Still (s : Sys) : Prop where
  can : s.canStep = none
  reader : s.readerStep = none
  sender : s.senderStep = none
  edge : s.edge = false

/-- A still program has answered everything: no interrupt is lost, and no sender is stuck. -/
theorem Sound.answered (h : s.Sound) (hstill : s.Still) : s.Answered := by
  rcases block_of_canStep hstill.can with ⟨hblock, hsem⟩
  have hline : s.intHigh = true := by
    by_contra hlow
    rcases h.alert hblock (Bool.eq_false_iff.2 hlow) with hedge | hint
    · exact absurd (hedge.symm.trans hstill.edge) (by decide)
    · exact absurd (hint.symm.trans hsem) (by decide)
  refine ⟨hblock, hline, fun p hp => take_of_readerStep hstill.reader hp, ?_⟩
  intro p hp
  rcases take_of_senderStep hstill.sender hp with ⟨⟨c, rfl⟩, hempty⟩
  refine ⟨⟨c, rfl⟩, ?_⟩
  intro hnone
  -- With no request left a token would still be owed to this sender.
  have hflag : s.regs CANINTF &&& TX0IF = 0#8 := by
    have hzero : s.regs CANINTF &&& enabled = 0#8 := eq_of_beq hline
    have hmask : TX0IF = enabled &&& TX0IF := by decide
    rw [hmask, ← BitVec.and_assoc, hzero, BitVec.zero_and]
  exact h.owed.not_stuck ⟨⟨c, hp⟩, hempty, hnone, hflag, by rw [hblock]; rfl⟩

end Sys

/-! ## Frames that wait -/

/-- The frames in the receive buffers that no call has returned. -/
def Sys.unreadCount (s : Sys) : Nat :=
  (unread .b0 s.trace).isSome.toNat + (unread .b1 s.trace).isSome.toNat

/-- Once the flags are answered there is a token for each frame that has not been returned. -/
theorem Sys.Delivery.rxSem_of_answered {mask : Byte} (h : s.Delivery mask) (hans : s.Answered) :
    s.rxSem = s.unreadCount := by
  have hzero : s.regs CANINTF &&& enabled = 0#8 := eq_of_beq hans.line
  have hflag : ∀ n, (s.regs CANINTF).getLsbD (index n) = false := by
    intro n
    have hen : enabled.getLsbD (index n) = true := by
      cases n <;> decide
    have hbit : (s.regs CANINTF &&& enabled).getLsbD (index n) = false := by
      rw [hzero, BitVec.getLsbD_zero]
    rwa [BitVec.getLsbD_and, hen, Bool.and_true] at hbit
  have hreads : ∀ n, s.reader.any (ReadPc.reads n) = false := by
    intro n
    cases hr : s.reader with
    | none => rfl
    | some p =>
        rcases (hans.reader p hr).1 with ⟨buf, rfl⟩
        rfl
  have hholds : s.reader.any ReadPc.holds = false := by
    cases hr : s.reader with
    | none => rfl
    | some p =>
        rcases (hans.reader p hr).1 with ⟨buf, rfl⟩
        rfl
  -- A frame is in its buffer with its bit set, and each bit has its token.
  have hplace : ∀ n, (mask.getLsbD (index n)).toNat = (unread n s.trace).isSome.toNat := by
    intro n
    have hcount := h.counts.place n
    rw [hflag n, hreads n, hans.waits] at hcount
    simpa [RunPc.taking] using hcount
  calc
    s.rxSem = (mask.getLsbD 0).toNat + (mask.getLsbD 1).toNat := by
          have htokens := h.counts.tokens
          rw [hans.waits, hholds] at htokens
          simpa [RunPc.owes] using htokens
    _ = s.unreadCount := by
          rw [unreadCount, ← hplace .b0, ← hplace .b1]
          rfl

/-- A read that waits has no frame to wait for. -/
theorem Sys.Delivery.unread_of_answered {mask : Byte} (h : s.Delivery mask) (hans : s.Answered)
    (hreader : s.reader ≠ none) (n : RxBuf) : unread n s.trace = none := by
  rcases Option.ne_none_iff_exists'.1 hreader with ⟨p, hp⟩
  have hcount := h.rxSem_of_answered hans
  rw [(hans.reader p hp).2, Sys.unreadCount] at hcount
  rw [← Option.not_isSome_iff_eq_none, Bool.not_eq_true, ← Bool.toNat_eq_zero]
  cases n with
  | b0 => omega
  | b1 => omega

/-! ## Runs -/

/-- In every run in which the frames are spaced and no store disturbs bit 0 of `_pendingRxBuf`: where
nothing moves, there is one token for each frame in the buffers, and a read waits for none of
them. -/
theorem no_frame_left {r : Regs} {ls : List Label} {t : Sys}
    (h : Run Sys.step (fun s l => Spaced s l ∧ s.ZeroApart l) (Sys.boot r) ls t)
    (hstill : t.Still) :
    t.rxSem = t.unreadCount ∧ (t.reader ≠ none → ∀ n, unread n t.trace = none) := by
  have hinv : t.Sound ∧ ∃ mask, t.Delivery mask ∧ t.Shadows mask := by
    refine h.invariant (I := fun s => s.Sound ∧ ∃ mask, s.Delivery mask ∧ s.Shadows mask) ?_
      ⟨.boot r, _, .boot r, .boot r⟩
    rintro s l u ⟨hsound, mask, hdelivery, hshadows⟩ ⟨hspaced, hapart⟩ hstep
    have hpay : Payloads s l := by
      cases l with
      | submit c => exact hspaced
      | _ => trivial
    exact ⟨hsound.step hpay hstep, _, hdelivery.step hspaced hshadows.zero hstep,
      hshadows.step hapart hstep⟩
  rcases hinv with ⟨hsound, mask, hdelivery, -⟩
  have hans := hsound.answered hstill
  exact ⟨hdelivery.rxSem_of_answered hans, hdelivery.unread_of_answered hans⟩

/-- Two frames have come and one has been returned: a token is left. -/
theorem no_frame_left_rollover :
    ∃ t : Sys, t.unreadCount = 1 ∧ t.rxSem = t.unreadCount := by
  rcases exists_run_of_exec Sys.step (fun s l => Spaced s l ∧ s.ZeroApart l)
    (Sys.boot rolloverRegs)
    (List.flatten
      [[.canService, .arrive (oneByte 0x10#8 0x11#8), .arrive (oneByte 0x20#8 0x22#8),
          .irqHandler 7], List.replicate 15 .canService,
        [.receive fun _ => 0#8], List.replicate 9 .reader])
    (fun t => (t.canStep = none ∧ t.readerStep = none ∧ t.senderStep = none ∧ t.edge = false) ∧
      t.unreadCount = 1) (by decide +kernel) with ⟨t, hrun, hstill⟩
  rcases of_decide_eq_true hstill with ⟨⟨hcan, hreader, hsender, hedge⟩, hone⟩
  exact ⟨t, hone, (no_frame_left hrun ⟨hcan, hreader, hsender, hedge⟩).1⟩

end Mcp2515Task
end PicoCppSdk
