import PicoCppSdk.Udp.Transport

/-!
# Timeout — how long a read of the UDP transport waits

`udp_transport_read` sets the receive timeout of the socket before it receives, and does not look at
the answer.  The socket library takes a timeout of 0 for "wait for ever" and refuses a negative one;
the socket then keeps the timeout that an earlier read has set.
-/

namespace PicoCppSdk
namespace Udp
namespace Timeout

open Atomic

/-! ## The receive timeout of a socket -/

/-- `SO_RCVTIMEO` in milliseconds, and the number of the read that has set it. -/
structure RecvTimeout where
  ms : Nat
  setBy : Option Nat
  deriving DecidableEq, Repr

/-- How long `recv` waits; `none` is for ever. -/
def RecvTimeout.limit (o : RecvTimeout) : Option Nat :=
  if o.ms = 0 then none else some o.ms

/-- A `recv`: the number and the timeout of the read that made it, and the receive timeout of the
socket. -/
structure Wait where
  number : Nat
  timeout : Int
  inForce : RecvTimeout

structure Lib where
  recvTimeout : Int → RecvTimeout
  waits : List Wait

/-- One read, and what the socket library answers to its `recv`. -/
structure Read where
  len : Nat
  timeout : Int
  received : Int

section

-- The milliseconds of a `timeval`, as the socket library converts them.
variable (toMs : Int → Int → Int)

/-- The calls of the socket library during read `number`. -/
def answer (number : Nat) (r : Read) : (a : Udp.Act) → Lib → a.Ans × Lib
  | .setsockopt fd tvSec tvUsec, lib =>
      -- Refused: the receive timeout stays as it was.
      if toMs tvSec tvUsec < 0 then
        (-1, lib)
      else
        (0, { lib with recvTimeout :=
          Function.update lib.recvTimeout fd ⟨(toMs tvSec tvUsec).toNat, some number⟩ })
  | .recv fd _, lib =>
      (r.received, { lib with waits := lib.waits ++ [⟨number, r.timeout, lib.recvTimeout fd⟩] })
  | _, lib => (0, lib)

def read (g : Globals) (number : Nat) (r : Read) (lib : Lib) : Lib :=
  ((udpTransportRead g r.len r.timeout).run (answer toMs number r) lib).2

/-- Reads one after the other, numbered from `number`. -/
def readAll (g : Globals) : (number : Nat) → List Read → Lib → Lib
  | _, [], lib => lib
  | number, r :: reads, lib => readAll g (number + 1) reads (read toMs g number r lib)

end

/-- New sockets wait for ever. -/
def boot : Lib where
  recvTimeout _ := ⟨0, none⟩
  waits := []

/-! ## The property -/

/-- A read with a timeout that is not negative waits at most that long, and one with a negative
timeout not under what an earlier read has set. -/
structure Wait.Own (w : Wait) : Prop where
  bounded : 0 ≤ w.timeout → w.inForce.limit = some w.timeout.toNat
  fresh : w.timeout < 0 → ∀ k, w.inForce.setBy = some k → ¬ k < w.number

/-! ## One read -/

section

variable {toMs : Int → Int → Int} {g : Globals} {number : Nat} {r : Read} {lib : Lib}

/-- The milliseconds of the `timeval` are those of the timeout. -/
theorem toMs_timeout (hms : ∀ sec usec, toMs sec usec = sec * 1000 + usec.tdiv 1000)
    (timeout : Int) : toMs (timeout.tdiv 1000) (timeout.tmod 1000 * 1000) = timeout := by
  calc
    toMs (timeout.tdiv 1000) (timeout.tmod 1000 * 1000)
        = timeout.tdiv 1000 * 1000 + (timeout.tmod 1000 * 1000).tdiv 1000 := hms _ _
    _ = timeout.tdiv 1000 * 1000 + timeout.tmod 1000 := by
          rw [Int.mul_tdiv_cancel _ (by decide)]
    _ = timeout := Int.tdiv_mul_add_tmod timeout 1000

theorem read_of_nonneg (hms : ∀ sec usec, toMs sec usec = sec * 1000 + usec.tdiv 1000)
    (hfd : 0 ≤ g.sockFd) (ht : 0 ≤ r.timeout) :
    read toMs g number r lib =
      { recvTimeout :=
          Function.update lib.recvTimeout g.sockFd ⟨r.timeout.toNat, some number⟩
        waits := lib.waits ++ [⟨number, r.timeout, ⟨r.timeout.toNat, some number⟩⟩] } := by
  simp [read, udpTransportRead, setsockopt, recv, answer, toMs_timeout hms, Int.not_lt.2 hfd,
    Int.not_lt.2 ht]

/-- The negative timeout is refused. -/
theorem read_of_neg (hms : ∀ sec usec, toMs sec usec = sec * 1000 + usec.tdiv 1000)
    (hfd : 0 ≤ g.sockFd) (ht : r.timeout < 0) :
    read toMs g number r lib =
      { lib with
        waits := lib.waits ++ [⟨number, r.timeout, lib.recvTimeout g.sockFd⟩] } := by
  simp [read, udpTransportRead, setsockopt, recv, answer, toMs_timeout hms, Int.not_lt.2 hfd, ht]

theorem own_of_nonneg_iff (ht : 0 ≤ r.timeout) :
    (⟨number, r.timeout, ⟨r.timeout.toNat, some number⟩⟩ : Wait).Own ↔ r.timeout ≠ 0 := by
  constructor
  · intro h hzero
    have hlimit := h.bounded ht
    simp [RecvTimeout.limit, hzero] at hlimit
  · intro hne
    refine ⟨fun _ => ?_, fun hneg => absurd hneg (Int.not_lt.2 ht)⟩
    have hpos : r.timeout.toNat ≠ 0 := by omega
    exact if_neg hpos

/-- `o` is what reads before this one have left. -/
theorem own_of_neg_iff {o : RecvTimeout} (ho : ∀ k, o.setBy = some k → k < number)
    (ht : r.timeout < 0) :
    (⟨number, r.timeout, o⟩ : Wait).Own ↔ o.setBy = none := by
  constructor
  · intro h
    cases hset : o.setBy with
    | none => rfl
    | some k => exact absurd (ho k hset) (h.fresh ht k hset)
  · intro hnone
    refine ⟨fun hge => absurd ht (Int.not_lt.2 hge), fun _ k hk => ?_⟩
    cases hnone.symm.trans hk

end

/-! ## Sequences of reads -/

/-- No timeout is 0, and none is negative behind a positive one; if `limited`, a read before these
has set the receive timeout. -/
structure Separate (limited : Bool) (reads : List Read) : Prop where
  ne_zero : ∀ r ∈ reads, r.timeout ≠ 0
  pairwise : reads.Pairwise fun a b => 0 < a.timeout → 0 < b.timeout
  limited : limited = true → ∀ r ∈ reads, 0 < r.timeout

section

variable {r : Read} {reads : List Read} {limited : Bool}

theorem Separate.nil : Separate limited [] :=
  ⟨fun _ h => absurd h List.not_mem_nil, .nil, fun _ _ h => absurd h List.not_mem_nil⟩

theorem separate_cons_of_nonneg (ht : 0 ≤ r.timeout) :
    Separate limited (r :: reads) ↔ r.timeout ≠ 0 ∧ Separate true reads := by
  constructor
  · intro h
    have hne := h.ne_zero r List.mem_cons_self
    have hpos : 0 < r.timeout := by omega
    rcases List.pairwise_cons.1 h.pairwise with ⟨hall, hrest⟩
    exact ⟨hne, fun s hs => h.ne_zero s (List.mem_cons_of_mem r hs), hrest,
      fun _ s hs => hall s hs hpos⟩
  · rintro ⟨hne, h⟩
    have hpos : 0 < r.timeout := by omega
    refine ⟨List.forall_mem_cons.2 ⟨hne, h.ne_zero⟩, ?_, fun _ => ?_⟩
    · exact List.pairwise_cons.2 ⟨fun s hs _ => h.limited rfl s hs, h.pairwise⟩
    · exact List.forall_mem_cons.2 ⟨hpos, h.limited rfl⟩

theorem separate_cons_of_neg (ht : r.timeout < 0) :
    Separate limited (r :: reads) ↔ limited = false ∧ Separate limited reads := by
  constructor
  · intro h
    have hlimited : limited = false := by
      cases limited with
      | false => rfl
      | true =>
          have hpos := h.limited rfl r List.mem_cons_self
          omega
    exact ⟨hlimited, fun s hs => h.ne_zero s (List.mem_cons_of_mem r hs),
      (List.pairwise_cons.1 h.pairwise).2,
      fun hl s hs => h.limited hl s (List.mem_cons_of_mem r hs)⟩
  · rintro ⟨hlimited, h⟩
    refine ⟨List.forall_mem_cons.2 ⟨by omega, h.ne_zero⟩, ?_, fun hl => ?_⟩
    · exact List.pairwise_cons.2 ⟨fun s hs hpos => by omega, h.pairwise⟩
    · rw [hlimited] at hl
      cases hl

end

section

variable {toMs : Int → Int → Int} {g : Globals}

/-- The reads up to here have their own timeouts, and so have those to come, exactly if these are
separate behind them. -/
theorem own_readAll_iff (hms : ∀ sec usec, toMs sec usec = sec * 1000 + usec.tdiv 1000)
    (hfd : 0 ≤ g.sockFd) (reads : List Read) (number : Nat) (lib : Lib)
    (hlib : ∀ k, (lib.recvTimeout g.sockFd).setBy = some k → k < number) :
    (∀ w ∈ (readAll toMs g number reads lib).waits, w.Own) ↔
      (∀ w ∈ lib.waits, w.Own) ∧ Separate (lib.recvTimeout g.sockFd).setBy.isSome reads := by
  -- Induction on the reads; what is carried on is whether one of them has set the timeout.
  induction reads generalizing number lib with
  | nil => exact ⟨fun h => ⟨h, .nil⟩, fun h => h.1⟩
  | cons r reads ih =>
      rw [readAll]
      by_cases ht : 0 ≤ r.timeout
      · rw [read_of_nonneg hms hfd ht, ih]
        · simp only [List.forall_mem_append, List.forall_mem_singleton, Function.update_self,
            Option.isSome_some, own_of_nonneg_iff ht, separate_cons_of_nonneg ht, and_assoc]
        · intro k hk
          simp only [Function.update_self] at hk
          cases hk
          exact Nat.lt_succ_self number
      · have hneg : r.timeout < 0 := Int.not_le.1 ht
        -- `setsockopt` refuses, so `recv` waits under what is in force already.
        rw [read_of_neg hms hfd hneg, ih]
        · simp only [List.forall_mem_append, List.forall_mem_singleton, own_of_neg_iff hlib hneg,
            separate_cons_of_neg hneg, and_assoc, Option.isSome_eq_false_iff,
            Option.isNone_iff_eq_none]
        · exact fun k hk => Nat.lt_succ_of_lt (hlib k hk)

theorem timeouts_readAll (hms : ∀ sec usec, toMs sec usec = sec * 1000 + usec.tdiv 1000)
    (hfd : 0 ≤ g.sockFd) (reads : List Read) (number : Nat) (lib : Lib) :
    (readAll toMs g number reads lib).waits.map Wait.timeout =
      lib.waits.map Wait.timeout ++ reads.map Read.timeout := by
  induction reads generalizing number lib with
  | nil => simp [readAll]
  | cons r reads ih =>
      rw [readAll, ih]
      by_cases ht : 0 ≤ r.timeout
      · simp [read_of_nonneg hms hfd ht]
      · simp [read_of_neg hms hfd (Int.not_le.1 ht)]

/-- Every read of an open socket makes one `recv`; and they all wait at most their own timeouts
exactly if no timeout is 0 and none is negative behind a positive one. -/
theorem own_iff_separate (hms : ∀ sec usec, toMs sec usec = sec * 1000 + usec.tdiv 1000)
    (hfd : 0 ≤ g.sockFd) (reads : List Read) :
    (readAll toMs g 0 reads boot).waits.map Wait.timeout = reads.map Read.timeout ∧
      ((∀ w ∈ (readAll toMs g 0 reads boot).waits, w.Own) ↔
        (∀ r ∈ reads, r.timeout ≠ 0) ∧
          reads.Pairwise fun a b => 0 < a.timeout → 0 < b.timeout) := by
  constructor
  · exact timeouts_readAll hms hfd reads 0 boot
  · rw [own_readAll_iff hms hfd reads 0 boot (by rintro k ⟨⟩)]
    constructor
    · rintro ⟨_, h⟩
      exact ⟨h.ne_zero, h.pairwise⟩
    · rintro ⟨hne, hpairwise⟩
      refine ⟨fun w hw => absurd hw List.not_mem_nil, hne, hpairwise, ?_⟩
      rintro ⟨⟩

end

/-- The conversion of the socket library. -/
def timevalMs (sec usec : Int) : Int := sec * 1000 + usec.tdiv 1000

/-- The transport with socket 3, sending to port 8888. -/
def openSocket : Globals := ⟨3, ⟨8888#16, 0x0100007F#32⟩⟩

theorem own_iff_separate_two :
    (readAll timevalMs openSocket 0 [⟨512, -1, -1⟩, ⟨512, 20, 4⟩] boot).waits.map Wait.timeout =
        [-1, 20] ∧
      ((∀ w ∈ (readAll timevalMs openSocket 0 [⟨512, -1, -1⟩, ⟨512, 20, 4⟩] boot).waits, w.Own) ↔
        (∀ r ∈ [(⟨512, -1, -1⟩ : Read), ⟨512, 20, 4⟩], r.timeout ≠ 0) ∧
          [(⟨512, -1, -1⟩ : Read), ⟨512, 20, 4⟩].Pairwise
            fun a b => 0 < a.timeout → 0 < b.timeout) :=
  own_iff_separate (fun _ _ => rfl) (by decide) _

/-- With a timeout of 0 `recv` waits for ever. -/
theorem not_own : ¬ ∀ (g : Globals) (reads : List Read), 0 ≤ g.sockFd →
    ∀ w ∈ (readAll timevalMs g 0 reads boot).waits, w.Own := by
  intro hclaim
  have hmem : (⟨0, 0, ⟨0, some 0⟩⟩ : Wait) ∈
      (readAll timevalMs openSocket 0 [⟨512, 0, -1⟩] boot).waits :=
    List.mem_singleton.2 rfl
  have hown := hclaim openSocket [⟨512, 0, -1⟩] (by decide) _ hmem
  -- The bound would be a limit of 0, and there is none.
  have hlimit := hown.bounded (Int.le_refl 0)
  cases hlimit

end Timeout
end Udp
end PicoCppSdk
