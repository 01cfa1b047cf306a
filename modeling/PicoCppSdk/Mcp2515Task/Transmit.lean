import PicoCppSdk.Mcp2515Task.Footprint

/-!
# Transmit — the gate of `txBuffer0SendInTask`

A send waits for `_txSemaphore` only if bit 0 of `_pendingTxBuf` is set.  `canService` clears the
bit and gives the semaphore for every completion, whether or not somebody waits, so a token can
outlive the send it belongs to; a later send that finds the bit set then takes the old token and
overruns the request before it.

A request is at one of three places: in the controller (`TXREQ`), in `CANINTF` (`TX0IF`), or at
`canService` between clearing the flag and clearing the bit.  While the sender takes no token of an
earlier send there is at most one request, and bit 0 stands for it.
-/

namespace PicoCppSdk
namespace Mcp2515Task

open Atomic Mcp2515 Transition

variable {s t : Sys}

/-! ## Where a request is -/

namespace RunPc

/-- `TX0IF` is cleared, the bit of `_pendingTxBuf` is not. -/
def clearing : RunPc → Bool
  | .txLoad _ => true
  | .txStore _ _ => true
  | _ => false

/-- A `TX0IF` that `canService` has read and will clear. -/
def sawTx : RunPc → Bool
  | .stampLoad f => f.getLsbD 2
  | .stampStore f _ => f.getLsbD 2
  | .rxClear _ f => f.getLsbD 2
  | .rxLoad _ f => f.getLsbD 2
  | .rxStore _ f _ => f.getLsbD 2
  | .txClear _ => true
  | _ => false

/-- Inside the branch for error flags. -/
def inError : RunPc → Bool
  | .readEflg => true
  | .clearErr _ => true
  | .reqConfig => true
  | .settle => true
  | .reqNormal => true
  | .errLoad => true
  | .errStore _ => true
  | .errGive => true
  | _ => false

/-- A point of the normal branch that holds no request of its own; `saw` bounds what it has read. -/
structure Plain (saw : Bool) (p : RunPc) : Prop where
  clearing : p.clearing = false
  inError : p.inError = false
  sawTx : p.sawTx = true → saw = true

theorem plain_txClear (f : Byte) (hf : f &&& TX0IF ≠ 0#8) : Plain (f.getLsbD 2) (.txClear f) :=
  ⟨rfl, rfl, fun _ => (and_bit2 f).1 hf⟩

theorem plain_fromStamp (f : Byte) : Plain (f.getLsbD 2) (goto (fromStamp f)) :=
  goto_fromStamp_of ⟨rfl, rfl, id⟩ (fun _ _ => ⟨rfl, rfl, id⟩) (plain_txClear f)
    (fun _ _ => ⟨rfl, rfl, nofun⟩) ⟨rfl, rfl, nofun⟩ ⟨rfl, rfl, nofun⟩

theorem plain_fromRx0 (f : Byte) : Plain (f.getLsbD 2) (goto (fromRx0 f)) :=
  goto_fromRx0_of (fun _ _ => ⟨rfl, rfl, id⟩) (plain_txClear f)
    (fun _ _ => ⟨rfl, rfl, nofun⟩) ⟨rfl, rfl, nofun⟩ ⟨rfl, rfl, nofun⟩

theorem plain_afterRx (n : RxBuf) (f : Byte) : Plain (f.getLsbD 2) (goto (afterRx n f)) :=
  goto_afterRx_of n (fun _ _ => ⟨rfl, rfl, id⟩) (plain_txClear f)
    (fun _ _ => ⟨rfl, rfl, nofun⟩) ⟨rfl, rfl, nofun⟩ ⟨rfl, rfl, nofun⟩

theorem plain_fromGive0 (f : Byte) : Plain false (goto (fromGive0 f)) :=
  goto_fromGive0_of (fun _ _ => ⟨rfl, rfl, nofun⟩) ⟨rfl, rfl, nofun⟩ ⟨rfl, rfl, nofun⟩

theorem plain_afterGive (n : RxBuf) (f : Byte) : Plain false (goto (afterGive n f)) :=
  goto_afterGive_of n (fun _ _ => ⟨rfl, rfl, nofun⟩) ⟨rfl, rfl, nofun⟩ ⟨rfl, rfl, nofun⟩

end RunPc

namespace SendPc

/-- Past the test of `_pendingTxBuf` and the wait behind it. -/
def pastGate : SendPc → Bool
  | .test _ => false
  | .take _ => false
  | .load _ => true
  | .store _ _ => true
  | .sending _ _ _ => true

/-- Inside `txBuffer0Send`. -/
def writing : SendPc → Bool
  | .sending _ _ _ => true
  | _ => false

/-- Waiting for `_txSemaphore`. -/
def waits : SendPc → Bool
  | .take _ => true
  | _ => false

theorem pastGate_of_writing {p : SendPc} (h : p.writing = true) : p.pastGate = true := by
  cases p with
  | sending c a k => rfl
  | _ => cases h

end SendPc

/-- The number of requests under way, from `CANINTF`, `TXB0CTRL` and the place of `canService`. -/
def requests (intf ctrl : Byte) (pc : RunPc) : Nat :=
  (ctrl.getLsbD 3).toNat + (intf.getLsbD 2).toNat + pc.clearing.toNat

theorem requests_of_clearing {intf ctrl : Byte} {pc : RunPc} (h : pc.clearing = true) :
    requests intf ctrl pc = (ctrl.getLsbD 3).toNat + (intf.getLsbD 2).toNat + 1 := by
  rw [requests, h, Bool.toNat_true]

theorem requests_of_not_clearing {intf ctrl : Byte} {pc : RunPc} (h : pc.clearing = false) :
    requests intf ctrl pc = (ctrl.getLsbD 3).toNat + (intf.getLsbD 2).toNat := by
  rw [requests, h, Bool.toNat_false, Nat.add_zero]

/-! ## The invariant of the gate -/

/-- The gate, on the parts of the state that it depends on. -/
structure TxGate (intf ctrl : Byte) (pc : RunPc) (mask : Byte) (snd : Option SendPc) : Prop where
  quiet : ∀ i, 5 ≤ i → intf.getLsbD i = false
  normal : pc.inError = false
  seen : pc.sawTx = true → intf.getLsbD 2 = true
  single : requests intf ctrl pc ≤ 1
  past : snd.any SendPc.pastGate = true → requests intf ctrl pc = 0
  bit : mask.getLsbD 0 = true ↔ 0 < requests intf ctrl pc ∨ snd.any SendPc.writing = true

namespace TxGate

variable {intf ctrl mask : Byte} {pc : RunPc} {snd : Option SendPc}

/-- A sender inside `txBuffer0Send` is past the gate. -/
theorem requests_of_writing (h : TxGate intf ctrl pc mask snd)
    (hw : snd.any SendPc.writing = true) : requests intf ctrl pc = 0 := by
  apply h.past
  rcases (Option.any_eq_true _ _).1 hw with ⟨p, hp, hpw⟩
  exact (Option.any_eq_true _ _).2 ⟨p, hp, SendPc.pastGate_of_writing hpw⟩

/-- `canService` goes on to a plain point and changes nothing. -/
theorem goTo (h : TxGate intf ctrl pc mask snd) (hpc : pc.clearing = false) {saw : Bool}
    (hsaw : saw = true → intf.getLsbD 2 = true) {pc' : RunPc} (hpc' : pc'.Plain saw) :
    TxGate intf ctrl pc' mask snd := by
  have hreq : requests intf ctrl pc' = requests intf ctrl pc := by
    simp only [requests, hpc, hpc'.clearing]
  exact
    { quiet := h.quiet
      normal := hpc'.inError
      seen := fun hs => hsaw (hpc'.sawTx hs)
      single := hreq ▸ h.single
      past := hreq ▸ h.past
      bit := hreq ▸ h.bit }

/-- Flags of `CANINTF` below the error flags and other than `TX0IF` may change. -/
theorem setIntf (h : TxGate intf ctrl pc mask snd) {intf' : Byte}
    (hquiet : ∀ i, 5 ≤ i → intf'.getLsbD i = intf.getLsbD i)
    (htx : intf'.getLsbD 2 = intf.getLsbD 2) : TxGate intf' ctrl pc mask snd := by
  have hreq : requests intf' ctrl pc = requests intf ctrl pc := by
    simp only [requests, htx]
  exact
    { quiet := fun i hi => (hquiet i hi).trans (h.quiet i hi)
      normal := h.normal
      seen := fun hs => htx.trans (h.seen hs)
      single := hreq ▸ h.single
      past := hreq ▸ h.past
      bit := hreq ▸ h.bit }

/-- The sender moves on. -/
theorem setSender (h : TxGate intf ctrl pc mask snd) {snd' : Option SendPc}
    (hpast : snd'.any SendPc.pastGate = true → requests intf ctrl pc = 0)
    (hwriting : snd'.any SendPc.writing = snd.any SendPc.writing) :
    TxGate intf ctrl pc mask snd' :=
  ⟨h.quiet, h.normal, h.seen, h.single, hpast, hwriting ▸ h.bit⟩

/-- A clear bit of `_pendingTxBuf` means that no request is under way. -/
theorem requests_of_bit (h : TxGate intf ctrl pc mask snd) (hbit : mask &&& 0x01#8 = 0#8) :
    requests intf ctrl pc = 0 := by
  have hclear : ¬ mask.getLsbD 0 = true := by
    rw [← and_bit0]
    exact fun hne => hne hbit
  rw [h.bit] at hclear
  exact Nat.eq_zero_of_not_pos fun hpos => hclear (Or.inl hpos)

end TxGate

/-- The gate of a state. -/
abbrev Sys.TxGate (s : Sys) : Prop :=
  Mcp2515Task.TxGate (s.regs CANINTF) (s.regs TXB0CTRL) s.can s.pendingTxBuf s.sender

theorem getLsbD_rxFlag (n : RxBuf) {i : Nat} (hi : 2 ≤ i) : (rxFlag n).getLsbD i = false := by
  have hlt : (rxFlag n).toNat < 2 ^ 2 := by
    cases n <;> decide
  exact getLsbD_of_toNat_lt hlt hi

/-- Without an error flag `canService` takes the normal branch. -/
theorem no_error_branch {f : Byte} (h : ∀ i, 5 ≤ i → f.getLsbD i = false) :
    ¬ f &&& (MERRF ||| WAKIF ||| ERRIF) ≠ 0#8 := by
  have hzero : f &&& (MERRF ||| WAKIF ||| ERRIF) = 0#8 := by
    apply BitVec.eq_of_getLsbD_eq
    intro i hi
    by_cases h5 : 5 ≤ i
    · simp [h i h5]
    · interval_cases i <;> simp
  exact fun hne => hne hzero

theorem Sys.TxGate.atPc (h : s.TxGate) {p : RunPc} (hpc : s.can = p) :
    Mcp2515Task.TxGate (s.regs CANINTF) (s.regs TXB0CTRL) p s.pendingTxBuf s.sender :=
  hpc ▸ h

/-- `canService` clears `TX0IF`: the request moves from the flag to `canService`. -/
theorem TxGate.clearFlag {r : Regs} {f mask : Byte} {snd : Option SendPc}
    (h : TxGate (r CANINTF) (r TXB0CTRL) (.txClear f) mask snd) :
    TxGate ((r.modify CANINTF TX0IF 0#8) CANINTF) ((r.modify CANINTF TX0IF 0#8) TXB0CTRL)
      (.txLoad f) mask snd := by
  have hflag : (r CANINTF).getLsbD 2 = true := h.seen rfl
  have hclear : ((r.modify CANINTF TX0IF 0#8) CANINTF).getLsbD 2 = false := by
    rw [Regs.modify_self, getLsbD_clear, hflag]
    rfl
  have hctrl : (r.modify CANINTF TX0IF 0#8) TXB0CTRL = r TXB0CTRL :=
    Regs.modify_of_ne (by decide) _ _ _
  have hreq : requests ((r.modify CANINTF TX0IF 0#8) CANINTF)
      ((r.modify CANINTF TX0IF 0#8) TXB0CTRL) (.txLoad f) =
      requests (r CANINTF) (r TXB0CTRL) (.txClear f) := by
    rw [requests_of_clearing rfl, requests_of_not_clearing rfl, hctrl, hclear, hflag]
    rfl
  have hquiet : ∀ i, 5 ≤ i → ((r.modify CANINTF TX0IF 0#8) CANINTF).getLsbD i = false := by
    intro i hi
    rw [Regs.modify_self, getLsbD_clear, h.quiet i hi]
    rfl
  exact ⟨hquiet, rfl, nofun, hreq ▸ h.single, hreq ▸ h.past, hreq ▸ h.bit⟩

/-- `canService` clears bit 0 of `_pendingTxBuf`: the request and its bit go together. -/
theorem TxGate.dropBit {intf ctrl f v mask : Byte} {snd : Option SendPc}
    (h : TxGate intf ctrl (.txStore f v) mask snd) :
    TxGate intf ctrl (RunPc.goto (RunPc.fromGive0 f)) (v &&& ~~~0x01#8) snd := by
  have hplain := RunPc.plain_fromGive0 f
  have hle := h.single
  rw [requests_of_clearing rfl] at hle
  -- It was the only request, so none is left.
  have hnone : requests intf ctrl (RunPc.goto (RunPc.fromGive0 f)) = 0 := by
    rw [requests_of_not_clearing hplain.clearing]
    exact Nat.le_zero.1 (Nat.le_of_succ_le_succ hle)
  -- A sender past the gate would have seen no request at all.
  have hwriting : snd.any SendPc.writing = false := by
    rw [Bool.eq_false_iff]
    intro hw
    have hzero := h.requests_of_writing hw
    rw [requests_of_clearing rfl] at hzero
    exact absurd hzero (Nat.succ_ne_zero _)
  have hbit : (v &&& ~~~0x01#8).getLsbD 0 = false := by
    simp
  refine ⟨h.quiet, hplain.inError, fun hs => Bool.noConfusion (hplain.sawTx hs),
    hnone ▸ Nat.zero_le 1, fun _ => hnone, ?_⟩
  rw [hbit, hnone, hwriting]
  decide

theorem Sys.TxGate.can (h : s.TxGate) (hm : CanMove s t) : t.TxGate := by
  have hnormal := h.normal
  cases hm with
  | awaitDone hpc =>
      exact (h.atPc hpc).goTo rfl id ⟨rfl, rfl, nofun⟩
  | awaitMore hpc =>
      exact (h.atPc hpc).goTo rfl id ⟨rfl, rfl, nofun⟩
  | awaitDelay hpc =>
      exact (h.atPc hpc).goTo rfl id ⟨rfl, rfl, nofun⟩
  | pollHigh hpc hint =>
      exact (h.atPc hpc).goTo rfl id ⟨rfl, rfl, nofun⟩
  | pollLow hpc hint =>
      exact (h.atPc hpc).goTo rfl id ⟨rfl, rfl, nofun⟩
  | block hpc hsem =>
      exact (h.atPc hpc).goTo rfl id ⟨rfl, rfl, nofun⟩
  | readIntf hpc =>
      have hgo : RunPc.goto (RunPc.fromIntf (s.regs CANINTF)) =
          RunPc.goto (RunPc.fromStamp (s.regs CANINTF)) := by
        rw [RunPc.goto_fromIntf, if_neg (no_error_branch h.quiet)]
      exact (h.atPc hpc).goTo rfl id (hgo ▸ RunPc.plain_fromStamp _)
  | stampLoad f hpc =>
      exact (h.atPc hpc).goTo rfl (h.atPc hpc).seen ⟨rfl, rfl, id⟩
  | stampStore f now hpc =>
      exact (h.atPc hpc).goTo rfl (h.atPc hpc).seen (RunPc.plain_fromRx0 f)
  | rxClear n f hpc =>
      have hflag : ∀ i, 2 ≤ i → ((s.regs.modify CANINTF (rxFlag n) 0#8) CANINTF).getLsbD i =
          (s.regs CANINTF).getLsbD i := by
        intro i hi
        rw [Regs.modify_self, getLsbD_clear, getLsbD_rxFlag n hi]
        simp
      have hset := (h.atPc hpc).setIntf (fun i hi => hflag i (le_trans (by decide) hi))
        (hflag 2 le_rfl)
      have hctrl : (s.regs.modify CANINTF (rxFlag n) 0#8) TXB0CTRL = s.regs TXB0CTRL :=
        Regs.modify_of_ne (by decide) _ _ _
      rw [← hctrl] at hset
      exact hset.goTo rfl hset.seen ⟨rfl, rfl, id⟩
  | rxLoad n f hpc =>
      exact (h.atPc hpc).goTo rfl (h.atPc hpc).seen ⟨rfl, rfl, id⟩
  | rxStore n f v hpc =>
      exact (h.atPc hpc).goTo rfl (h.atPc hpc).seen (RunPc.plain_afterRx n f)
  | txClear f hpc =>
      exact (h.atPc hpc).clearFlag
  | txLoad f hpc =>
      have hat := h.atPc hpc
      exact ⟨hat.quiet, rfl, nofun, hat.single, hat.past, hat.bit⟩
  | txStore f v hpc =>
      exact (h.atPc hpc).dropBit
  | rxGive n f hpc =>
      exact (h.atPc hpc).goTo rfl Bool.noConfusion (RunPc.plain_afterGive n f)
  | txGive hpc =>
      exact (h.atPc hpc).goTo rfl id ⟨rfl, rfl, nofun⟩
  -- The error branch is never entered.
  | readEflg hpc => rw [hpc] at hnormal; cases hnormal
  | clearErr eflg hpc => rw [hpc] at hnormal; cases hnormal
  | reqConfig hpc => rw [hpc] at hnormal; cases hnormal
  | settle hpc => rw [hpc] at hnormal; cases hnormal
  | reqNormal hpc => rw [hpc] at hnormal; cases hnormal
  | errLoad hpc => rw [hpc] at hnormal; cases hnormal
  | errStore v hpc => rw [hpc] at hnormal; cases hnormal
  | errGive hpc => rw [hpc] at hnormal; cases hnormal

/-! ## The frames of a run -/

namespace Event

def submitted? : Event → Option CanFrame
  | .submitted c => some c.frame
  | _ => none

def transmitted? : Event → Option CanFrame
  | .transmitted f => some f
  | _ => none

end Event

namespace Sys

/-- The frames handed to `txBuffer0SendInTask`, oldest first. -/
def submitted (s : Sys) : List CanFrame :=
  (s.trace.filterMap Event.submitted?).reverse

/-- The frames that the controller has sent, oldest first. -/
def transmitted (s : Sys) : List CanFrame :=
  (s.trace.filterMap Event.transmitted?).reverse

theorem submitted_of_trace {c : SendCall} (h : t.trace = .submitted c :: s.trace) :
    t.submitted = s.submitted ++ [c.frame] := by
  simp only [submitted, h, List.filterMap_cons, Event.submitted?, List.reverse_cons]

theorem transmitted_of_trace {f : CanFrame} (h : t.trace = .transmitted f :: s.trace) :
    t.transmitted = s.transmitted ++ [f] := by
  simp only [transmitted, h, List.filterMap_cons, Event.transmitted?, List.reverse_cons]

/-- The frame whose transmission is requested. -/
def requested (s : Sys) : List CanFrame :=
  if s.regs TXB0CTRL &&& TXREQ ≠ 0#8 then [txFrame s.regs] else []

/-- The frame of the call that has begun. -/
def inCall (s : Sys) : List CanFrame :=
  (s.sender.map fun p => p.call.frame).toList

theorem requested_of_request (h : s.regs TXB0CTRL &&& TXREQ ≠ 0#8) :
    s.requested = [txFrame s.regs] :=
  if_pos h

theorem requested_of_none (h : ¬ s.regs TXB0CTRL &&& TXREQ ≠ 0#8) : s.requested = [] :=
  if_neg h

theorem inCall_of_sender {p : SendPc} (h : s.sender = some p) : s.inCall = [p.call.frame] := by
  rw [inCall, h]
  rfl

theorem inCall_of_none (h : s.sender = none) : s.inCall = [] := by
  rw [inCall, h]
  rfl

/-- What the send side owes its callers: a send begins when no request is pending, the frames on the
wire are the frames of the calls in order, and in the end all of them. -/
structure Transmits (s : Sys) : Prop where
  begins : ∀ c a k, s.sender = some (.sending c a k) →
    txBuffer0Send c.canId c.buf c.len = .act a k → s.regs TXB0CTRL &&& TXREQ = 0#8
  inOrder : s.transmitted <+: s.submitted
  all : s.sender = none → s.regs TXB0CTRL &&& TXREQ = 0#8 → s.transmitted = s.submitted

/-- The invariant of the send side. -/
structure TxInv (s : Sys) : Prop where
  gate : s.TxGate
  reads : s.ReaderReads
  writes : s.SenderWrites
  order : s.submitted = s.transmitted ++ s.requested ++ s.inCall

end Sys

/-! ## The invariant is kept -/

/-- A step that leaves TXB0, the sender and the frames alone. -/
theorem Sys.TxInv.congr (h : s.TxInv) (hgate : t.TxGate) (hreads : t.ReaderReads)
    (hsender : t.sender = s.sender) (hsubmitted : t.submitted = s.submitted)
    (htransmitted : t.transmitted = s.transmitted)
    (hctrl : t.regs TXB0CTRL = s.regs TXB0CTRL)
    (hregs : ∀ a, InTxb0 a → t.regs a = s.regs a) : t.TxInv := by
  have hrequested : t.requested = s.requested := by
    simp only [Sys.requested, hctrl, txFrame_congr hregs]
  have hinCall : t.inCall = s.inCall := by
    simp only [Sys.inCall, hsender]
  refine ⟨hgate, hreads, h.writes.congr hsender hregs, ?_⟩
  calc
    t.submitted = s.submitted := hsubmitted
    _ = s.transmitted ++ s.requested ++ s.inCall := h.order
    _ = t.transmitted ++ t.requested ++ t.inCall := by rw [htransmitted, hrequested, hinCall]

theorem Sys.TxInv.can (h : s.TxInv) (hm : CanMove s t) : t.TxInv := by
  rcases hm.frame with ⟨hreader, hsender, htrace, hregs⟩
  refine h.congr (h.gate.can hm) ?_ hsender ?_ ?_ ?_ ?_
  · intro n now a k hp
    exact h.reads n now a k (hreader ▸ hp)
  · simp only [Sys.submitted, htrace]
  · simp only [Sys.transmitted, htrace]
  · exact hregs _ (by decide) (by decide)
  · intro a ha
    apply hregs
    · rintro rfl
      exact absurd ha (by decide)
    · rintro rfl
      exact absurd ha (by decide)

theorem Sys.TxInv.reader (h : s.TxInv) (hm : ReaderMove s t) : t.TxInv := by
  have hregs := hm.regs h.reads
  rcases hm.frame with ⟨hcan, hsender, hmask, htrace⟩
  have hgate : t.TxGate := by
    unfold Sys.TxGate
    rw [hregs, hcan, hsender, hmask]
    exact h.gate
  refine h.congr hgate (hm.readerReads h.reads) hsender ?_ ?_ (by rw [hregs]) ?_
  · rcases htrace with htrace | ⟨n, x, now, htrace⟩
    · simp only [Sys.submitted, htrace]
    · simp only [Sys.submitted, htrace]
      rfl
  · rcases htrace with htrace | ⟨n, x, now, htrace⟩
    · simp only [Sys.transmitted, htrace]
    · simp only [Sys.transmitted, htrace]
      rfl
  · intro a _
    rw [hregs]

/-- While the sender writes, no transmission is requested. -/
theorem Sys.TxInv.no_request (h : s.TxInv) (hw : s.sender.any SendPc.writing = true) :
    ¬ s.regs TXB0CTRL &&& TXREQ ≠ 0#8 := by
  have hzero := h.gate.requests_of_writing hw
  intro hne
  have hset : (s.regs TXB0CTRL).getLsbD 3 = true := (and_bit3 _).1 hne
  rw [requests, hset, Bool.toNat_true] at hzero
  omega

/-- A step inside a call before `txBuffer0Send`. -/
theorem Sys.TxInv.setSender (h : s.TxInv) {p p' : SendPc} (hp : s.sender = some p)
    (hp' : t.sender = some p') (hcall : p'.call = p.call) (hgate : t.TxGate)
    (hwrites : t.SenderWrites) (hregs : t.regs = s.regs) (hreader : t.reader = s.reader)
    (htrace : t.trace = s.trace) : t.TxInv := by
  refine ⟨hgate, ?_, hwrites, ?_⟩
  · intro n now a k hr
    exact h.reads n now a k (hreader ▸ hr)
  · have hsubmitted : t.submitted = s.submitted := by
      simp only [Sys.submitted, htrace]
    have htransmitted : t.transmitted = s.transmitted := by
      simp only [Sys.transmitted, htrace]
    have hrequested : t.requested = s.requested := by
      simp only [Sys.requested, hregs]
    have hinCall : t.inCall = s.inCall := by
      rw [Sys.inCall_of_sender hp', Sys.inCall_of_sender hp, hcall]
    calc
      t.submitted = s.submitted := hsubmitted
      _ = s.transmitted ++ s.requested ++ s.inCall := h.order
      _ = t.transmitted ++ t.requested ++ t.inCall := by rw [htransmitted, hrequested, hinCall]

/-- The sender takes a token only when bit 0 of `_pendingTxBuf` is clear: the completion that gave
the token is the one it waits for. -/
def Sys.OwnToken (s : Sys) : Prop :=
  s.sender.any SendPc.waits = true → s.pendingTxBuf &&& 0x01#8 = 0#8

instance (s : Sys) : Decidable s.OwnToken :=
  inferInstanceAs (Decidable (_ → _))

/-- A write into TXB0 before the request. -/
theorem Sys.TxInv.write (h : s.TxInv) {c : SendCall} {a a' : BusAct} {k : a.Ans → Driver Unit}
    {k' : a'.Ans → Driver Unit} {w : Byte × Byte} (hpc : s.sender = some (.sending c a k))
    (hw : InTxb0 w.1)
    (hwrites : Sys.SenderWrites
      { s with regs := s.regs.write w.1 w.2, sender := some (.sending c a' k') }) :
    Sys.TxInv { s with regs := s.regs.write w.1 w.2, sender := some (.sending c a' k') } := by
  have hgate := h.gate
  rw [Sys.TxGate, hpc] at hgate
  have hclear := h.no_request (by rw [hpc]; rfl)
  have hintf : (s.regs.write w.1 w.2) CANINTF = s.regs CANINTF := by
    apply Regs.write_of_ne
    rintro heq
    exact absurd (heq ▸ hw) (by decide)
  have hctrl : (s.regs.write w.1 w.2) TXB0CTRL = s.regs TXB0CTRL := by
    apply Regs.write_of_ne
    rintro heq
    exact absurd (heq ▸ hw) (by decide)
  refine ⟨?_, h.reads, hwrites, ?_⟩
  · have hset : Mcp2515Task.TxGate (s.regs CANINTF) (s.regs TXB0CTRL) s.can s.pendingTxBuf
        (some (.sending c a' k')) :=
      hgate.setSender (fun _ => hgate.past rfl) rfl
    rw [← hintf, ← hctrl] at hset
    exact hset
  · have hclear' : ¬ (s.regs.write w.1 w.2) TXB0CTRL &&& TXREQ ≠ 0#8 := hctrl ▸ hclear
    calc
      s.submitted = s.transmitted ++ s.requested ++ s.inCall := h.order
      _ = s.transmitted ++ [] ++ [c.frame] := by
            rw [Sys.requested_of_none hclear, Sys.inCall_of_sender hpc]
            rfl
      _ = _ := by
            rw [Sys.requested_of_none hclear', Sys.inCall_of_sender rfl]
            rfl

/-- The last write: the frame passes from the call to the controller. -/
theorem Sys.TxInv.request (h : s.TxInv) {c : SendCall} {a : BusAct} {k : a.Ans → Driver Unit}
    (hpc : s.sender = some (.sending c a k)) (hframe : txFrame s.regs = c.frame)
    (hwrites : Sys.SenderWrites { s with regs := s.regs.write TXB0CTRL 0x08#8, sender := none }) :
    Sys.TxInv { s with regs := s.regs.write TXB0CTRL 0x08#8, sender := none } := by
  have hgate := h.gate
  rw [Sys.TxGate, hpc] at hgate
  have hclear := h.no_request (by rw [hpc]; rfl)
  have hintf : (s.regs.write TXB0CTRL 0x08#8) CANINTF = s.regs CANINTF :=
    Regs.write_of_ne (by decide) _ _
  have hzero := hgate.past rfl
  -- There was no request; now there is this one.
  have hone : requests ((s.regs.write TXB0CTRL 0x08#8) CANINTF)
      ((s.regs.write TXB0CTRL 0x08#8) TXB0CTRL) s.can = 1 := by
    have hctrl : (0x08#8).getLsbD 3 = true := rfl
    rw [hintf, Regs.write_self]
    simp only [requests, hctrl, Bool.toNat_true] at hzero ⊢
    omega
  refine ⟨⟨?_, hgate.normal, ?_, hone ▸ le_rfl, nofun, ?_⟩, h.reads, hwrites, ?_⟩
  · exact hintf ▸ hgate.quiet
  · exact hintf ▸ hgate.seen
  · exact iff_of_true (hgate.bit.2 (Or.inr rfl)) (Or.inl (hone ▸ Nat.one_pos))
  · have hset : (s.regs.write TXB0CTRL 0x08#8) TXB0CTRL &&& TXREQ ≠ 0#8 := by
      rw [Regs.write_self]
      decide
    have hsent : txFrame (s.regs.write TXB0CTRL 0x08#8) = c.frame := by
      rw [← hframe]
      apply txFrame_congr
      intro x hx
      apply Regs.write_of_ne
      rintro rfl
      exact absurd hx (by decide)
    calc
      s.submitted = s.transmitted ++ s.requested ++ s.inCall := h.order
      _ = s.transmitted ++ [] ++ [c.frame] := by
            rw [Sys.requested_of_none hclear, Sys.inCall_of_sender hpc]
            rfl
      _ = s.transmitted ++ [txFrame (s.regs.write TXB0CTRL 0x08#8)] ++ [] := by
            rw [hsent, List.append_nil, List.append_nil]
      _ = _ := by
            rw [Sys.requested_of_request hset, Sys.inCall_of_none rfl]
            rfl

theorem Sys.TxInv.sender (h : s.TxInv) (hown : s.OwnToken) (hm : SenderMove s t) : t.TxInv := by
  have hgate := h.gate
  have hwrites := h.writes.step hm
  cases hm with
  | test c hpc =>
      rw [Sys.TxGate, hpc] at hgate
      by_cases hbit : s.pendingTxBuf &&& 0x01#8 ≠ 0#8
      · have hgo : SendPc.fromTest c s.pendingTxBuf = .take c := if_pos hbit
        -- A set bit makes the sender wait; a clear one says that no request is under way.
        refine h.setSender hpc (congrArg some hgo) rfl ?_ hwrites rfl rfl rfl
        exact hgo ▸ hgate.setSender nofun rfl
      · have hgo : SendPc.fromTest c s.pendingTxBuf = .load c := if_neg hbit
        have hzero := hgate.requests_of_bit (not_not.1 hbit)
        refine h.setSender hpc (congrArg some hgo) rfl ?_ hwrites rfl rfl rfl
        exact hgo ▸ hgate.setSender (fun _ => hzero) rfl
  | take c hpc hsem =>
      rw [Sys.TxGate, hpc] at hgate
      -- The token is that of the last completion, so no request is under way here either.
      have hzero := hgate.requests_of_bit (hown (by rw [hpc]; rfl))
      exact h.setSender hpc rfl rfl (hgate.setSender (fun _ => hzero) rfl) hwrites rfl rfl rfl
  | load c hpc =>
      rw [Sys.TxGate, hpc] at hgate
      refine h.setSender hpc rfl rfl ?_ hwrites rfl rfl rfl
      exact hgate.setSender (fun _ => hgate.past rfl) rfl
  | store c v a k hpc hsend =>
      rw [Sys.TxGate, hpc] at hgate
      have hbit : (v ||| 0x01#8).getLsbD 0 = true := by
        simp
      refine h.setSender hpc rfl rfl ?_ hwrites rfl rfl rfl
      exact ⟨hgate.quiet, hgate.normal, hgate.seen, hgate.single, fun _ => hgate.past rfl,
        iff_of_true hbit (Or.inr rfl)⟩
  | sending c a k a' k' hpc hrest =>
      have hlen := h.writes.len _ hpc
      rcases (h.writes.sending c a k hpc).next hlen with ⟨hact, _⟩ | ⟨w, _, _, hw, hact, _⟩
      · cases hact
        cases hrest
      · cases hact
        cases hrest
        exact h.write hpc hw hwrites
  | done c a k hpc hrest =>
      have hlen := h.writes.len _ hpc
      rcases (h.writes.sending c a k hpc).next hlen with ⟨hact, hframe⟩ | ⟨w, _, _, _, hact, _⟩
      · cases hact
        exact h.request hpc hframe hwrites
      · cases hact
        cases hrest

theorem Sys.TxInv.submit (h : s.TxInv) {c : SendCall} (hlen : c.len ≤ 8#8)
    (hm : s.submit c = some t) : t.TxInv := by
  rcases Sys.eq_of_submit hm with ⟨hsender, rfl⟩
  refine ⟨h.gate.setSender ?_ (by rw [hsender]; rfl), h.reads, ⟨?_, ?_⟩, ?_⟩
  · intro hpast
    cases hpast
  · intro p hp
    cases hp
    exact hlen
  · intro c' a k hp
    cases hp
  · calc
      Sys.submitted _ = s.submitted ++ [c.frame] := Sys.submitted_of_trace rfl
      _ = s.transmitted ++ s.requested ++ s.inCall ++ [c.frame] := by rw [h.order]
      _ = s.transmitted ++ s.requested ++ [c.frame] := by
            rw [Sys.inCall_of_none hsender, List.append_nil]
      _ = _ := by
            rw [Sys.inCall_of_sender rfl]
            rfl

theorem Sys.TxInv.arrive (h : s.TxInv) (img : RxImage) (hfree : s.rxTarget ≠ none) :
    (s.arrive img).TxInv := by
  rcases Option.ne_none_iff_exists'.1 hfree with ⟨n, hn⟩
  rcases s.arrive_frame img with ⟨hcan, hreader, hsender, hmask, -⟩
  have htrace : (s.arrive img).trace = .loaded n img :: s.trace := by
    simp only [Sys.arrive, hn]
  have hraised : s.arriveFlag = rxFlag n := by
    simp only [Sys.arriveFlag, hn]
  have hflag : ∀ i, 2 ≤ i →
      ((s.arrive img).regs CANINTF).getLsbD i = (s.regs CANINTF).getLsbD i := by
    intro i hi
    rw [s.arrive_intf, hraised, getLsbD_rxFlag n hi, Bool.or_false]
  refine h.congr ?_ ?_ hsender ?_ ?_ (s.arrive_txb0ctrl img) fun a ha => s.arrive_inTxb0 img ha
  · have hgate := h.gate.setIntf (fun i hi => hflag i (le_trans (by decide) hi)) (hflag 2 le_rfl)
    unfold Sys.TxGate
    rw [s.arrive_txb0ctrl, hcan, hmask, hsender]
    exact hgate
  · intro m now a k hr
    exact h.reads m now a k (hreader ▸ hr)
  · simp only [Sys.submitted, htrace]
    rfl
  · simp only [Sys.transmitted, htrace]
    rfl

/-- The request is under way before and after a completion, so the sender is not past the gate. -/
theorem Sys.TxInv.complete (h : s.TxInv) (hm : s.complete = some t) : t.TxInv := by
  have hc := Sys.completed_of_complete hm
  rcases hc.parties with ⟨hcan, hreader, hsender⟩
  have hset : (s.regs TXB0CTRL).getLsbD 3 = true := (and_bit3 _).1 hc.requested
  -- The request goes from TXREQ to the flag.
  have hpos : 0 < requests (s.regs CANINTF) (s.regs TXB0CTRL) s.can := by
    rw [requests, hset, Bool.toNat_true]
    omega
  have hclearing : s.can.clearing.toNat = 0 := by
    have hsingle := h.gate.single
    rw [requests, hset, Bool.toNat_true] at hsingle
    omega
  have hone : requests (t.regs CANINTF) (t.regs TXB0CTRL) t.can = 1 := by
    rw [requests, hc.cleared, hc.flag, hcan, hclearing]
    rfl
  have hgate : ¬ t.sender.any SendPc.pastGate = true := by
    rw [hsender]
    intro hpast
    exact absurd (h.gate.past hpast) (Nat.ne_of_gt hpos)
  refine ⟨⟨?_, hcan ▸ h.gate.normal, fun _ => hc.flag, hone ▸ le_rfl, ?_, ?_⟩, ?_, ⟨?_, ?_⟩, ?_⟩
  · intro i hi
    have hbit : TX0IF.getLsbD i = false := getLsbD_of_toNat_lt (k := 3) (by decide) (by omega)
    rw [hc.flagged, h.gate.quiet i hi, hbit]
    rfl
  · intro hpast
    exact absurd hpast hgate
  · have hmask : t.pendingTxBuf.getLsbD 0 = true := by
      rw [hc.masks.2]
      exact h.gate.bit.2 (Or.inl hpos)
    exact iff_of_true hmask (Or.inl (hone ▸ Nat.one_pos))
  · intro n now a k hr
    exact h.reads n now a k (hreader ▸ hr)
  · intro p hp
    exact h.writes.len p (hsender ▸ hp)
  · intro c a k hp
    exact absurd (by rw [hp]; rfl) hgate
  · have hclear : ¬ t.regs TXB0CTRL &&& TXREQ ≠ 0#8 := by
      intro hne
      exact absurd (((and_bit3 _).1 hne).symm.trans hc.cleared) (by decide)
    have hsubmitted : t.submitted = s.submitted := by
      simp only [Sys.submitted, hc.trace]
      rfl
    have hinCall : t.inCall = s.inCall := by
      simp only [Sys.inCall, hsender]
    -- The frame that was requested is the next on the wire.
    calc
      t.submitted = s.submitted := hsubmitted
      _ = s.transmitted ++ s.requested ++ s.inCall := h.order
      _ = s.transmitted ++ [txFrame s.regs] ++ s.inCall := by
            rw [Sys.requested_of_request hc.requested]
      _ = t.transmitted ++ t.requested ++ t.inCall := by
            rw [Sys.transmitted_of_trace hc.trace, Sys.requested_of_none hclear, hinCall,
              List.append_nil]

/-! ## Runs -/

/-- No error or wake interrupt: the controller raises no other flags, and no frame overflows. -/
def NoErrors (s : Sys) : Label → Prop
  | .raise _ _ => False
  | .arrive _ => s.rxTarget ≠ none
  | _ => True

instance (s : Sys) : (l : Label) → Decidable (NoErrors s l)
  | .raise _ _ => inferInstanceAs (Decidable False)
  | .arrive _ => inferInstanceAs (Decidable (_ ≠ _))
  | .canService => inferInstanceAs (Decidable True)
  | .reader => inferInstanceAs (Decidable True)
  | .sender => inferInstanceAs (Decidable True)
  | .receive _ => inferInstanceAs (Decidable True)
  | .submit _ => inferInstanceAs (Decidable True)
  | .irqHandler _ => inferInstanceAs (Decidable True)
  | .complete => inferInstanceAs (Decidable True)

/-- The sender takes no token of an earlier send, and every call has a CAN payload. -/
def OwnTokens (s : Sys) : Label → Prop
  | .sender => s.OwnToken
  | .submit c => c.len ≤ 8#8
  | _ => True

instance (s : Sys) : (l : Label) → Decidable (OwnTokens s l)
  | .sender => inferInstanceAs (Decidable s.OwnToken)
  | .submit c => inferInstanceAs (Decidable (c.len ≤ 8#8))
  | .canService => inferInstanceAs (Decidable True)
  | .reader => inferInstanceAs (Decidable True)
  | .receive _ => inferInstanceAs (Decidable True)
  | .irqHandler _ => inferInstanceAs (Decidable True)
  | .arrive _ => inferInstanceAs (Decidable True)
  | .complete => inferInstanceAs (Decidable True)
  | .raise _ _ => inferInstanceAs (Decidable True)

theorem Sys.TxInv.boot (r : Regs) : (Sys.boot r).TxInv := by
  have hintf : (Sys.boot r).regs CANINTF = 0#8 := by
    simp only [Sys.boot]
    rw [Regs.write_of_ne (by decide), Regs.write_self]
  have hctrl : (Sys.boot r).regs TXB0CTRL = 0#8 := by
    simp only [Sys.boot]
    rw [Regs.write_self]
  have hzero : requests ((Sys.boot r).regs CANINTF) ((Sys.boot r).regs TXB0CTRL) .await = 0 := by
    rw [hintf, hctrl]
    rfl
  refine ⟨⟨?_, rfl, nofun, hzero ▸ Nat.zero_le 1, nofun, ?_⟩, nofun, ⟨nofun, nofun⟩, ?_⟩
  · intro i _
    rw [hintf]
    exact BitVec.getLsbD_zero
  · have hbit : (Sys.boot r).pendingTxBuf.getLsbD 0 = false := by
      simp [Sys.boot]
    refine iff_of_false (Bool.eq_false_iff.1 hbit) ?_
    rintro (hpos | hwriting)
    · exact absurd hzero hpos.ne'
    · cases hwriting
  · have hclear : ¬ (Sys.boot r).regs TXB0CTRL &&& TXREQ ≠ 0#8 := by
      rw [hctrl]
      decide
    rw [Sys.requested, if_neg hclear]
    rfl

theorem Sys.TxInv.step {l : Label} (h : s.TxInv) (hquiet : NoErrors s l) (hown : OwnTokens s l)
    (hstep : Sys.step l s = some t) : t.TxInv := by
  rcases Option.map_eq_some_iff.1 hstep with ⟨u, hmove, rfl⟩
  have hu : u.TxInv := by
    cases l with
    | canService => exact h.can (canMove_of_canStep hmove)
    | reader => exact h.reader (readerMove_of_readerStep hmove)
    | sender => exact h.sender hown (senderMove_of_senderStep hmove)
    | receive buf =>
        rcases Sys.eq_of_receive hmove with ⟨-, rfl⟩
        refine h.congr h.gate ?_ rfl rfl rfl rfl fun _ _ => rfl
        intro n now a k hp
        cases hp
    | submit c => exact h.submit hown hmove
    | irqHandler now =>
        rcases Sys.eq_of_irqHandler hmove with ⟨-, rfl⟩
        exact h.congr h.gate h.reads rfl rfl rfl rfl fun _ _ => rfl
    | arrive img => exact Option.some.inj hmove ▸ h.arrive img hquiet
    | complete => exact h.complete hmove
    | raise flags eflg => exact hquiet.elim
  exact hu.congr hu.gate hu.reads rfl rfl rfl rfl fun _ _ => rfl

theorem Sys.TxInv.transmits (h : s.TxInv) : s.Transmits := by
  refine ⟨?_, ?_, ?_⟩
  · intro c a k hp _
    exact not_not.1 (h.no_request (by rw [hp]; rfl))
  · rw [h.order, List.append_assoc]
    exact List.prefix_append _ _
  · intro hsender hclear
    calc
      s.transmitted = s.transmitted ++ s.requested ++ s.inCall := by
            rw [Sys.requested_of_none (not_not.2 hclear), Sys.inCall_of_none hsender,
              List.append_nil, List.append_nil]
      _ = s.submitted := h.order.symm

/-- In every run without error interrupts, whatever the interleaving, no request is overrun. -/
def NeverOverruns : Prop :=
  ∀ (r : Regs) (ls : List Label) (t : Sys),
    Run Sys.step NoErrors (Sys.boot r) ls t → t.Transmits

/-- A call without data. -/
def emptyCall (canId : BitVec 32) : SendCall :=
  ⟨canId, fun _ => 0#8, 0#8⟩

/-- The first send is answered by `canService` before the second begins, which leaves a token; the
third send takes it while the second frame still waits in TXB0. -/
def oldTokenSchedule : List Label :=
  .canService :: .submit (emptyCall 1#32) :: List.replicate 7 .sender ++
    .complete :: List.replicate 6 .canService ++
    .submit (emptyCall 2#32) :: List.replicate 7 .sender ++
    .submit (emptyCall 3#32) :: List.replicate 8 .sender ++ [.complete]

/-- The second frame is lost: the third is on the wire after the first. -/
theorem not_neverOverruns : ¬ NeverOverruns := by
  intro h
  rcases exists_run_of_exec Sys.step NoErrors (Sys.boot fun _ => 0#8) oldTokenSchedule
    (fun t => ¬ t.transmitted <+: t.submitted) (by decide +kernel) with ⟨t, hrun, hlost⟩
  exact of_decide_eq_true hlost (h _ _ _ hrun).inOrder

/-- In every run in which the sender takes no token of an earlier send, no request is overrun: the
frames on the wire are the frames submitted, in order and once each. -/
theorem transmits_of_ownTokens {r : Regs} {ls : List Label} {t : Sys}
    (h : Run Sys.step (fun s l => NoErrors s l ∧ OwnTokens s l) (Sys.boot r) ls t) :
    t.Transmits := by
  have hinv : t.TxInv := by
    refine h.invariant ?_ (Sys.TxInv.boot r)
    intro s l u hI hok hstep
    exact hI.step hok.1 hok.2 hstep
  exact hinv.transmits

/-- A send that waits for the completion of the one before it. -/
theorem transmits_of_ownTokens_wait :
    ∃ t : Sys, t.transmitted = [(emptyCall 1#32).frame, (emptyCall 2#32).frame] ∧
      t.Transmits := by
  rcases exists_run_of_exec Sys.step (fun s l => NoErrors s l ∧ OwnTokens s l)
    (Sys.boot fun _ => 0#8)
    (List.flatten
      [[.canService, .submit (emptyCall 1#32)], List.replicate 7 .sender,
        [.submit (emptyCall 2#32), .sender, .complete], List.replicate 6 .canService,
        List.replicate 7 .sender, [.complete]])
    (fun t => t.transmitted = [(emptyCall 1#32).frame, (emptyCall 2#32).frame])
    (by decide +kernel) with ⟨t, hrun, hsent⟩
  exact ⟨t, of_decide_eq_true hsent, transmits_of_ownTokens hrun⟩

end Mcp2515Task
end PicoCppSdk
