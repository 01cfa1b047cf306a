import PicoCppSdk.Foundation.History
import PicoCppSdk.Mcp2515Task.Mask

/-!
# Stamp — the time that is returned with a frame

`irqHandler` records its time in `_lastIntTime`, `canService` copies it to `_lastRxTime` when it has
read a flag of a receive buffer, and a call of `rxReadInTask` takes it from there: two variables for
the times of two frames that wait.  What is returned with a frame is compared with a record of the
time at which `canService` first read its flag.

The two agree as long as no value is stored to `_lastRxTime` that is not the time of every frame
which waits to be picked by a call.
-/

namespace PicoCppSdk
namespace Mcp2515Task

open Atomic Mcp2515 Transition

variable {s t : Sys}

/-! ## When a frame was reported -/

/-- For each buffer, the time of the latest run of `irqHandler` when `canService` first read its
flag for the frame that it holds. -/
abbrev Reported := RxBuf → Option Nat

def noteReported : Label → Sys → Reported → Reported
  | .canService, s, h =>
      if s.can = .readIntf then
        fun n =>
          if (s.regs CANINTF).getLsbD (index n) then (h n).or (some s.lastIntTime) else h n
      else
        h
  | .arrive _, s, h =>
      match s.rxTarget with
      | some n => Function.update h n none
      | none => h
  | _, _, h => h

/-- The system with the record. -/
abbrev stampStep : Label → Sys × Reported → Option (Sys × Reported) :=
  withHistory Sys.step noteReported

/-- A call returns with a frame the time at which the frame was reported. -/
def KeepsStamp (p : Sys × Reported) : Prop :=
  ∀ (t : Sys) (n : RxBuf) (x : Received) (now : Nat) (tr : List Event),
    Sys.step .reader p.1 = some t → t.reader = none → t.trace = .returned n x now :: tr →
      p.2 n = some now

/-! ## The control points -/

namespace RunPc

/-- Buffer `n` is being taken over, or will be in this turn, and the time has been stored. -/
def serves (n : RxBuf) : RunPc → Bool
  | .rxClear m f => m == n || (before m n && f.getLsbD (index n))
  | .rxLoad m f => m == n || (before m n && f.getLsbD (index n))
  | .rxStore m f _ => m == n || (before m n && f.getLsbD (index n))
  | _ => false

theorem taking_or_sawRx_of_serves {n : RxBuf} {p : RunPc} (h : p.serves n = true) :
    p.taking n = true ∨ p.sawRx n = true := by
  cases p with
  | rxClear m f => exact Or.inr h
  | rxLoad m f => exact Bool.or_eq_true_iff.1 h
  | rxStore m f v => exact Bool.or_eq_true_iff.1 h
  | _ => cases h

theorem Serving.sawRx_of_serves {saw owed : RxBuf → Bool} {p : RunPc} (h : Serving saw owed p)
    {n : RxBuf} (hn : p.serves n = true) : saw n = true := by
  rcases taking_or_sawRx_of_serves hn with htaking | hsaw
  · rw [h.taking n] at htaking
    cases htaking
  · exact h.saw n hsaw

/-- The time that is about to be stored to `_lastRxTime`. -/
def stampStored : RunPc → Option Nat
  | .stampStore _ now => some now
  | _ => none

end RunPc

namespace ReadPc

/-- The buffer that a call has chosen, or that it will choose if bit 0 of the mask is `zero`. -/
def picks (zero : Bool) (n : RxBuf) : ReadPc → Bool
  | .test _ _ => (if zero then RxBuf.b0 else RxBuf.b1) == n
  | .load m _ _ => m == n
  | .store m _ _ _ => m == n
  | .reading m _ _ _ => m == n
  | _ => false

/-- The time that a call has loaded from `_lastRxTime`. -/
def loadedTime : ReadPc → Option Nat
  | .test _ now => some now
  | .load _ _ now => some now
  | .store _ _ now _ => some now
  | .reading _ now _ _ => some now
  | _ => none

theorem picks_of_not_tests {p : ReadPc} (h : p.tests = false) (zero zero' : Bool) (n : RxBuf) :
    p.picks zero n = p.picks zero' n := by
  cases p with
  | test buf now => cases h
  | _ => rfl

theorem picks_fromTest (buf : Nat → Byte) (now : Nat) (v : Byte) (zero : Bool) (n : RxBuf) :
    (fromTest buf now v).picks zero n = (ReadPc.test buf now).picks (v.getLsbD 0) n := by
  by_cases hbit : v &&& 0x01#8 ≠ 0#8
  · have hset : v.getLsbD 0 = true := (and_bit0 v).1 hbit
    simp only [fromTest, if_pos hbit, picks, hset, if_true]
  · have hclear : v.getLsbD 0 = false := not_test (and_bit0 v) hbit
    simp only [fromTest, if_neg hbit, picks, hclear, Bool.false_eq_true, if_false]

theorem chose_fromTest (buf : Nat → Byte) (now : Nat) (v : Byte) (n : RxBuf) :
    (fromTest buf now v).chose n = (ReadPc.test buf now).picks (v.getLsbD 0) n := by
  rw [← picks_fromTest buf now v (v.getLsbD 0) n, fromTest]
  split <;> rfl

theorem loadedTime_fromTest (buf : Nat → Byte) (now : Nat) (v : Byte) :
    (fromTest buf now v).loadedTime = some now := by
  rw [fromTest]
  split <;> rfl

end ReadPc

/-! ## The invariant of the times -/

/-- The times, on the parts of the state that they depend on: what waits to be picked by a call was
reported at the time in `_lastRxTime`, what a call has picked at the time that the call has
loaded. -/
structure Times (pc : RunPc) (mask : Byte) (last : Nat) (rdr : Option ReadPc) (h : Reported) :
    Prop where
  saw : ∀ n, pc.sawRx n = true → (h n).isSome = true
  waits : ∀ n, pc.serves n = true ∨ mask.getLsbD (index n) = true →
    rdr.any (ReadPc.picks (mask.getLsbD 0) n) = false → h n = some last
  picks : ∀ n now, rdr.any (ReadPc.picks (mask.getLsbD 0) n) = true →
    rdr.bind ReadPc.loadedTime = some now → h n = some now

/-- A buffer that a call has picked holds a frame. -/
theorem RxCounts.full_of_picks {intf mask : Byte} {pc : RunPc} {sem : Nat} {rdr : Option ReadPc}
    {full : RxBuf → Bool} (h : RxCounts intf pc mask sem rdr full) {n : RxBuf}
    (hn : rdr.any (ReadPc.picks (mask.getLsbD 0) n) = true) : full n = true := by
  rcases (Option.any_eq_true _ _).1 hn with ⟨p, hp, hpn⟩
  cases hp
  cases p with
  | take buf => cases hpn
  | stamp buf => cases hpn
  | test buf now =>
      apply h.full_of_mask
      -- The choice falls on a buffer whose bit is set.
      exact h.test.chosen n ((ReadPc.chose_fromTest buf now mask n).trans hpn)
  | load m buf now => exact h.full_of_mask (h.chosen n hpn)
  | store m buf now v => exact h.full_of_mask (h.chosen n hpn)
  | reading m now a k =>
      have hplace := h.place n
      -- The bit has been cleared, but the frame is still in the buffer.
      have hreads : (some (ReadPc.reading m now a k)).any (ReadPc.reads n) = true := hpn
      cases hfull : full n with
      | true => rfl
      | false =>
          rw [hreads, hfull, Bool.toNat_true, Bool.toNat_false] at hplace
          omega

/-- A buffer that is served holds a frame, and no call is reading it. -/
theorem RxCounts.of_serves {intf mask : Byte} {pc : RunPc} {sem : Nat} {rdr : Option ReadPc}
    {full : RxBuf → Bool} (h : RxCounts intf pc mask sem rdr full) {n : RxBuf}
    (hn : pc.serves n = true) : full n = true ∧ rdr.any (ReadPc.reads n) = false := by
  have hplace := h.place n
  have hle := Bool.toNat_le (full n)
  -- A served frame is with the flag or with `canService`, and it has no other place.
  have hone : 1 ≤ (intf.getLsbD (index n)).toNat + (pc.taking n).toNat := by
    rcases RunPc.taking_or_sawRx_of_serves hn with htaking | hsaw
    · rw [htaking, Bool.toNat_true]
      omega
    · rw [h.seen n hsaw, Bool.toNat_true]
      omega
  refine ⟨?_, Bool.toNat_eq_zero.1 (by omega)⟩
  cases hfull : full n with
  | true => rfl
  | false =>
      rw [hfull, Bool.toNat_false] at hplace
      omega

namespace Times

variable {intf mask : Byte} {pc pc' : RunPc} {sem last : Nat} {rdr : Option ReadPc}
  {full : RxBuf → Bool} {h h' : Reported}

/-- `canService` goes on. -/
theorem goTo (ht : Times pc mask last rdr h) (hsaw : ∀ n, pc'.sawRx n = true → pc.sawRx n = true)
    (hserves : ∀ n, pc'.serves n = true → pc.serves n = true) : Times pc' mask last rdr h :=
  ⟨fun n hn => ht.saw n (hsaw n hn), fun n hn => ht.waits n (hn.imp_left (hserves n)), ht.picks⟩

/-- To a point at which no flag is left to serve. -/
theorem toServing {owed : RxBuf → Bool} (ht : Times pc mask last rdr h)
    (hpc' : pc'.Serving (fun _ => false) owed) : Times pc' mask last rdr h :=
  ht.goTo (fun n hn => Bool.noConfusion (hpc'.saw n hn))
    fun _ hn => Bool.noConfusion (hpc'.sawRx_of_serves hn)

/-- What is in the record stays there. -/
theorem note (ht : Times pc mask last rdr h) (hh : ∀ n x, h n = some x → h' n = some x) :
    Times pc mask last rdr h' := by
  refine ⟨?_, ?_, ?_⟩
  · intro n hn
    rcases Option.isSome_iff_exists.1 (ht.saw n hn) with ⟨x, hx⟩
    rw [hh n x hx]
    rfl
  · intro n hn hpicks
    exact hh n last (ht.waits n hn hpicks)
  · intro n now hpicks hnow
    exact hh n now (ht.picks n now hpicks hnow)

/-- `canService` reads `CANINTF`: every flag that it finds is in the record. -/
theorem report {f : Byte} (ht : Times .readIntf mask last rdr h)
    (hh : ∀ n x, h n = some x → h' n = some x)
    (hf : ∀ n, f.getLsbD (index n) = true → (h' n).isSome = true) :
    Times (RunPc.goto (RunPc.fromIntf f)) mask last rdr h' := by
  have hnote := ht.note hh
  by_cases herr : f &&& (MERRF ||| WAKIF ||| ERRIF) ≠ 0#8
  · have hgo : RunPc.goto (RunPc.fromIntf f) = .readEflg := by
      rw [RunPc.goto_fromIntf, if_pos herr]
    rw [hgo]
    exact hnote.goTo nofun nofun
  · have hgo : RunPc.goto (RunPc.fromIntf f) = RunPc.goto (RunPc.fromStamp f) := by
      rw [RunPc.goto_fromIntf, if_neg herr]
    have hserving := RunPc.serving_fromStamp f
    rw [hgo]
    refine ⟨fun n hn => hf n (hserving.saw n hn), ?_, hnote.picks⟩
    intro n hn hpicks
    refine hnote.waits n (hn.imp_left ?_) hpicks
    -- A flag leads to the stamp first, where nothing is served yet.
    intro hserves
    have hbit := hserving.sawRx_of_serves hserves
    have hflag : f &&& RX0IF ≠ 0#8 ∨ f &&& RX1IF ≠ 0#8 := by
      cases n with
      | b0 => exact Or.inl ((and_bit0 f).2 hbit)
      | b1 => exact Or.inr ((and_bit1 f).2 hbit)
    rw [RunPc.goto_fromStamp, if_pos hflag] at hserves
    cases hserves

/-- `_lastRxTime = …;` with a value that is the time of every frame that waits to be picked. -/
theorem stampStore {f : Byte} {now : Nat} (ht : Times (.stampStore f now) mask last rdr h)
    (hc : RxCounts intf (.stampStore f now) mask sem rdr full)
    (htimely : ∀ n, full n = true → (h n).isSome = true →
      rdr.any (ReadPc.picks (mask.getLsbD 0) n) = false → h n = some now) :
    Times (RunPc.goto (RunPc.fromRx0 f)) mask now rdr h := by
  have hserving := RunPc.serving_fromRx0 f
  refine ⟨fun n hn => ht.saw n (hserving.saw n hn), ?_, ht.picks⟩
  intro n hn hpicks
  rcases hn with hserves | hset
  -- A buffer that is to be served holds a frame, and so does one whose bit is set.
  · have hsaw : (RunPc.stampStore f now).sawRx n = true := hserving.sawRx_of_serves hserves
    have hplace := hc.place n
    have hfull : full n = true := by
      rw [hc.seen n hsaw, Bool.toNat_true] at hplace
      cases hfull : full n with
      | true => rfl
      | false =>
          rw [hfull, Bool.toNat_false] at hplace
          omega
    exact htimely n hfull (ht.saw n hsaw) hpicks
  · have hold := ht.waits n (Or.inr hset) hpicks
    exact htimely n (hc.full_of_mask hset) (by rw [hold]; rfl) hpicks

/-- `_pendingRxBuf |= …;`.  A call that is about to choose will take RXB0 from here on: what it has
loaded must be the time of the frame there. -/
theorem mark {n : RxBuf} {f v : Byte} (ht : Times (.rxStore n f v) mask last rdr h)
    (hc : RxCounts intf (.rxStore n f v) mask sem rdr full)
    (htimely : n = .b0 → rdr.any ReadPc.tests = true → h .b0 = rdr.bind ReadPc.loadedTime) :
    Times (RunPc.goto (RunPc.afterRx n f)) (mask ||| bit n) last rdr h := by
  have hserving := RunPc.serving_afterRx f hc.named
  have hsaw : ∀ m, (RunPc.goto (RunPc.afterRx n f)).sawRx m = true → (h m).isSome = true :=
    fun m hm => ht.saw m (hserving.saw m hm)
  -- Buffer `n` goes over from being served to the mask.
  have hwaits : ∀ m, (RunPc.goto (RunPc.afterRx n f)).serves m = true ∨
      (mask ||| bit n).getLsbD (index m) = true →
        (RunPc.rxStore n f v).serves m = true ∨ mask.getLsbD (index m) = true := by
    intro m hm
    rcases hm with hserves | hset
    · exact Or.inl (Bool.or_eq_true_iff.2 (Or.inr (hserving.sawRx_of_serves hserves)))
    · rw [BitVec.getLsbD_or, getLsbD_bit_index] at hset
      rcases Bool.or_eq_true_iff.1 hset with hset | hn
      · exact Or.inr hset
      · exact Or.inl (by simp [RunPc.serves, of_decide_eq_true hn])
  have hclear : mask.getLsbD (index n) = false := hc.clear_of_taking (by simp [RunPc.taking])
  by_cases hchange : n = .b0 ∧ rdr.any ReadPc.tests = true
  · -- The choice of the call changes from RXB1 to RXB0.
    rcases hchange with ⟨rfl, htests⟩
    have hzero : mask.getLsbD 0 = false := hclear
    have hzero' : (mask ||| bit .b0).getLsbD 0 = true := by
      rw [getLsbD_zero_set]
      exact Bool.or_true _
    rcases (Option.any_eq_true _ _).1 htests with ⟨p, hp, hptests⟩
    cases hp
    cases p with
    | test buf now =>
        have hb0 : h .b0 = some now := htimely rfl rfl
        have hb1 : h .b1 = some now := ht.picks .b1 now (by rw [hzero]; rfl) rfl
        -- The call was going to take RXB1, so RXB0 waited until now.
        have hlast : h .b0 = some last :=
          ht.waits .b0 (Or.inl rfl) (by rw [hzero]; rfl)
        refine ⟨hsaw, ?_, ?_⟩
        · intro m _ _
          cases m with
          | b0 => exact hlast
          | b1 =>
              calc
                h .b1 = some now := hb1
                _ = h .b0 := hb0.symm
                _ = some last := hlast
        · intro m now' hpicks hnow
          cases hnow
          cases m with
          | b0 => exact hb0
          | b1 => exact hb1
    | _ => cases hptests
  · -- The choice of the call is what it was.
    have hsame : ∀ m, rdr.any (ReadPc.picks ((mask ||| bit n).getLsbD 0) m) =
        rdr.any (ReadPc.picks (mask.getLsbD 0) m) := by
      intro m
      cases n with
      | b1 => rw [getLsbD_zero_set, show decide (RxBuf.b1 = .b0) = false by rfl, Bool.or_false]
      | b0 =>
          cases rdr with
          | none => rfl
          | some p =>
              exact ReadPc.picks_of_not_tests
                (Bool.eq_false_iff.2 fun hp => hchange ⟨rfl, hp⟩) _ _ m
    refine ⟨hsaw, ?_, ?_⟩
    · intro m hm hpicks
      exact ht.waits m (hwaits m hm) ((hsame m).symm.trans hpicks)
    · intro m now hpicks hnow
      exact ht.picks m now ((hsame m).symm.trans hpicks) hnow

/-! ### The reader -/

/-- The reader goes on inside a call, with the mask as it is or a bit cleared. -/
theorem setReader {rdr' : Option ReadPc} {mask' : Byte} (ht : Times pc mask last rdr h)
    (hmask : ∀ n, mask'.getLsbD (index n) = true → mask.getLsbD (index n) = true)
    (hpicks : ∀ n, rdr'.any (ReadPc.picks (mask'.getLsbD 0) n) =
      rdr.any (ReadPc.picks (mask.getLsbD 0) n))
    (htime : rdr'.bind ReadPc.loadedTime = rdr.bind ReadPc.loadedTime) :
    Times pc mask' last rdr' h := by
  refine ⟨ht.saw, ?_, ?_⟩
  · intro n hn hnot
    exact ht.waits n (hn.imp_right (hmask n)) ((hpicks n).symm.trans hnot)
  · intro n now hn hnow
    exact ht.picks n now ((hpicks n).symm.trans hn) (htime.symm.trans hnow)

/-- The call loads the time of the frame that it will choose. -/
theorem loadStamp {buf : Nat → Byte} (ht : Times pc mask last (some (.stamp buf)) h)
    (hc : RxCounts intf pc mask sem (some (.stamp buf)) full) :
    Times pc mask last (some (.test buf last)) h := by
  have htest : RxCounts intf pc mask sem (some (.test buf last)) full :=
    hc.setReader (fun _ => rfl) rfl nofun
  refine ⟨ht.saw, fun n hn _ => ht.waits n hn rfl, ?_⟩
  intro n now hpicks hnow
  have hset : mask.getLsbD (index n) = true :=
    htest.test.chosen n ((ReadPc.chose_fromTest buf last mask n).trans hpicks)
  cases hnow
  exact ht.waits n (Or.inr hset) rfl

/-- The call chooses, by bit 0 of the mask. -/
theorem test {buf : Nat → Byte} {now : Nat} {v : Byte}
    (ht : Times pc mask last (some (.test buf now)) h) (hv : v.getLsbD 0 = mask.getLsbD 0) :
    Times pc mask last (some (ReadPc.fromTest buf now v)) h := by
  refine ht.setReader (fun _ => id) ?_ (ReadPc.loadedTime_fromTest buf now v)
  intro n
  exact (ReadPc.picks_fromTest buf now v _ n).trans (by rw [hv]; rfl)

/-- The call returns; its buffer is no longer waited for. -/
theorem done {n : RxBuf} {now : Nat} {a : BusAct} {k : a.Ans → Driver Received}
    (ht : Times pc mask last (some (.reading n now a k)) h)
    (hc : RxCounts intf pc mask sem (some (.reading n now a k)) full) :
    Times pc mask last none h := by
  refine ⟨ht.saw, ?_, nofun⟩
  intro m hm _
  by_cases hnm : n = m
  · subst hnm
    have hreads : (some (ReadPc.reading n now a k)).any (ReadPc.reads n) = true :=
      beq_self_eq_true n
    -- While it is being read, buffer `n` is neither served nor in the mask.
    rcases hm with hserves | hset
    · have hnot := (hc.of_serves hserves).2
      rw [hreads] at hnot
      cases hnot
    · have hplace := hc.place n
      have hle := Bool.toNat_le (full n)
      rw [hreads, hset, Bool.toNat_true] at hplace
      omega
  · exact ht.waits m hm (beq_false_of_ne hnm)

/-! ### The controller -/

/-- A frame is loaded; nothing is known of it yet. -/
theorem load {n : RxBuf} (ht : Times pc mask last rdr h) (hc : RxCounts intf pc mask sem rdr full)
    (hempty : full n = false) (hintf : intf.getLsbD (index n) = false) :
    Times pc mask last rdr (Function.update h n none) := by
  have hother : ∀ m, m ≠ n → Function.update h n none m = h m := by
    intro m hm
    exact Function.update_of_ne hm _ _
  refine ⟨?_, ?_, ?_⟩
  · intro m hm
    have hne : m ≠ n := by
      rintro rfl
      -- Buffer `n` was empty, so none of the three is about it.
      cases hintf.symm.trans (hc.seen m hm)
    rw [hother m hne]
    exact ht.saw m hm
  · intro m hm hpicks
    have hne : m ≠ n := by
      rintro rfl
      rcases hm with hserves | hset
      · cases hempty.symm.trans (hc.of_serves hserves).1
      · cases hempty.symm.trans (hc.full_of_mask hset)
    rw [hother m hne]
    exact ht.waits m hm hpicks
  · intro m now hpicks hnow
    have hne : m ≠ n := by
      rintro rfl
      cases hempty.symm.trans (hc.full_of_picks hpicks)
    rw [hother m hne]
    exact ht.picks m now hpicks hnow

end Times

/-! ## The system -/

/-- The value that `canService` stores to `_lastRxTime` is the time of every frame that has been
reported and that no call has picked. -/
def StoresTimely (p : Sys × Reported) : Prop :=
  ∀ now ∈ p.1.can.stampStored, ∀ n, (unread n p.1.trace).isSome = true → (p.2 n).isSome = true →
    p.1.reader.any (ReadPc.picks (p.1.pendingRxBuf.getLsbD 0) n) = false → p.2 n = some now

/-- Where `canService` sets bit 0 while a call is about to choose, the call has loaded the time of
the frame in RXB0. -/
def ChoosesTimely (p : Sys × Reported) : Prop :=
  p.1.can.stores .b0 = true → p.1.reader.any ReadPc.tests = true →
    p.2 .b0 = p.1.reader.bind ReadPc.loadedTime

def Timely (p : Sys × Reported) : Label → Prop
  | .canService => StoresTimely p ∧ ChoosesTimely p
  | _ => True

instance (p : Sys × Reported) : (l : Label) → Decidable (Timely p l)
  | .canService =>
      inferInstanceAs (Decidable
        ((∀ now ∈ p.1.can.stampStored, ∀ n : RxBuf, (unread n p.1.trace).isSome = true →
          (p.2 n).isSome = true →
            p.1.reader.any (ReadPc.picks (p.1.pendingRxBuf.getLsbD 0) n) = false →
              p.2 n = some now) ∧
          (p.1.can.stores .b0 = true → p.1.reader.any ReadPc.tests = true →
            p.2 .b0 = p.1.reader.bind ReadPc.loadedTime)))
  | .reader => inferInstanceAs (Decidable True)
  | .sender => inferInstanceAs (Decidable True)
  | .receive _ => inferInstanceAs (Decidable True)
  | .submit _ => inferInstanceAs (Decidable True)
  | .irqHandler _ => inferInstanceAs (Decidable True)
  | .arrive _ => inferInstanceAs (Decidable True)
  | .complete => inferInstanceAs (Decidable True)
  | .raise _ _ => inferInstanceAs (Decidable True)

/-- What the steps keep: the frames, bit 0 of the mask, and the times. -/
structure StampInv (p : Sys × Reported) (mask : Byte) : Prop where
  delivery : p.1.Delivery mask
  shadows : p.1.Shadows mask
  times : Times p.1.can mask p.1.lastRxTime p.1.reader p.2

namespace StampInv

variable {mask : Byte} {h : Reported}

theorem noteReported_can (hpc : s.can ≠ .readIntf) : noteReported .canService s h = h :=
  if_neg hpc

theorem can (hinv : StampInv (s, h) mask) (hok : Timely (s, h) .canService) (hm : CanMove s t) :
    Times t.can (s.can.marks mask) t.lastRxTime t.reader (noteReported .canService s h) := by
  have ht := hinv.times
  have hc := hinv.delivery.counts
  have hnote : ∀ {p : RunPc}, s.can = p → p ≠ .readIntf → noteReported .canService s h = h := by
    intro p hpc hp
    exact noteReported_can (hpc ▸ hp)
  have hidle : ∀ {p p' : RunPc}, s.can = p → p ≠ .readIntf → p.loadedRx = none → p'.Idle →
      Times p' (s.can.marks mask) s.lastRxTime s.reader (noteReported .canService s h) := by
    intro p p' hpc hp hstore hp'
    rw [hnote hpc hp, hpc, RunPc.marks_of_not_loaded hstore]
    exact ht.toServing hp'
  cases hm with
  | readIntf hpc =>
      have hgo : noteReported .canService s h = fun n =>
          if (s.regs CANINTF).getLsbD (index n) then (h n).or (some s.lastIntTime) else h n :=
        if_pos hpc
      rw [hgo, hpc]
      have hat : Times .readIntf mask s.lastRxTime s.reader h := hpc ▸ ht
      -- A frame keeps the time of the first turn that has found its flag.
      refine hat.report ?_ ?_
      · intro n x hx
        rw [hx]
        exact ite_self (some x)
      · intro n hn
        rw [if_pos hn]
        cases h n <;> rfl
  | stampLoad f hpc =>
      rw [hnote hpc (by nofun), hpc]
      have hat : Times (.stampLoad f) mask s.lastRxTime s.reader h := hpc ▸ ht
      exact hat.goTo (fun _ => id) nofun
  | stampStore f now hpc =>
      rw [hnote hpc (by nofun), hpc]
      have hat : Times (.stampStore f now) mask s.lastRxTime s.reader h := hpc ▸ ht
      refine hat.stampStore (hpc ▸ hc) ?_
      intro n hfull hsome hpicks
      refine hok.1 now (by rw [hpc]; rfl) n hfull hsome ?_
      -- The choice of a call depends on bit 0 alone, which the shadow has right.
      rw [hinv.shadows.zero]
      exact hpicks
  | rxClear n f hpc =>
      rw [hnote hpc (by nofun), hpc]
      have hat : Times (.rxClear n f) mask s.lastRxTime s.reader h := hpc ▸ ht
      exact hat.goTo (fun _ hn => Bool.or_eq_true_iff.2 (Or.inr hn)) fun _ => id
  | rxLoad n f hpc =>
      rw [hnote hpc (by nofun), hpc]
      have hat : Times (.rxLoad n f) mask s.lastRxTime s.reader h := hpc ▸ ht
      exact hat.goTo (fun _ => id) fun _ => id
  | rxStore n f v hpc =>
      rw [hnote hpc (by nofun), hpc]
      have hat : Times (.rxStore n f v) mask s.lastRxTime s.reader h := hpc ▸ ht
      refine hat.mark (hpc ▸ hc) ?_
      rintro rfl htests
      exact hok.2 (by rw [hpc]; rfl) htests
  | clearErr eflg hpc =>
      refine hidle hpc (by nofun) rfl ?_
      dsimp only
      split <;> exact RunPc.idle_of_apart rfl
  | txClear f hpc =>
      rw [hnote hpc (by nofun), hpc]
      have hserving : (RunPc.txLoad f).Serving (fun _ => false) fun n => f.getLsbD (index n) :=
        ⟨fun _ => rfl, nofun, fun _ => rfl, rfl⟩
      exact ht.toServing hserving
  | txLoad f hpc =>
      rw [hnote hpc (by nofun), hpc]
      have hserving : (RunPc.txStore f s.pendingTxBuf).Serving (fun _ => false)
          fun n => f.getLsbD (index n) :=
        ⟨fun _ => rfl, nofun, fun _ => rfl, rfl⟩
      exact ht.toServing hserving
  | txStore f v hpc =>
      rw [hnote hpc (by nofun), hpc]
      exact ht.toServing (RunPc.serving_fromGive0 f)
  | rxGive n f hpc =>
      rw [hnote hpc (by nofun), hpc]
      exact ht.toServing (RunPc.serving_afterGive f n)
  | _ => exact hidle ‹_› (by nofun) rfl (RunPc.idle_of_apart rfl)

theorem reader (hinv : StampInv (s, h) mask) (hm : ReaderMove s t) {p : ReadPc}
    (hp : s.reader = some p) : Times t.can (p.drops mask) t.lastRxTime t.reader h := by
  have ht := hinv.times
  have hc := hinv.delivery.counts
  cases hm with
  | take buf hpc hsem =>
      cases hp.symm.trans hpc
      rw [hpc] at ht
      exact ht.setReader (fun _ => id) (fun _ => rfl) rfl
  | stamp buf hpc =>
      cases hp.symm.trans hpc
      rw [hpc] at ht hc
      exact ht.loadStamp hc
  | test buf now hpc =>
      cases hp.symm.trans hpc
      rw [hpc] at ht
      exact ht.test hinv.shadows.zero
  | load n buf now hpc =>
      cases hp.symm.trans hpc
      rw [hpc] at ht
      exact ht.setReader (fun _ => id) (fun _ => rfl) rfl
  | store n buf now v a k hpc hread =>
      cases hp.symm.trans hpc
      rw [hpc] at ht
      refine ht.setReader ?_ (fun _ => rfl) rfl
      intro m hm
      rw [ReadPc.drops, getLsbD_drop] at hm
      exact (Bool.and_eq_true_iff.1 hm).1
  | reading n now a k a' k' hpc hrest =>
      cases hp.symm.trans hpc
      rw [hpc] at ht
      exact ht.setReader (fun _ => id) (fun _ => rfl) rfl
  | done n now a k x hpc hrest =>
      cases hp.symm.trans hpc
      rw [hpc] at ht hc
      exact ht.done hc

theorem arrive (hinv : StampInv (s, h) mask) {img : RxImage}
    (hspaced : ∀ n ∈ s.rxTarget, unread n s.trace = none) :
    Times (s.arrive img).can mask (s.arrive img).lastRxTime (s.arrive img).reader
      (noteReported (.arrive img) s h) := by
  cases htarget : s.rxTarget with
  | none =>
      simp only [Sys.arrive, noteReported, htarget]
      exact hinv.times
  | some n =>
      simp only [Sys.arrive, noteReported, htarget]
      refine hinv.times.load hinv.delivery.counts ?_ (getLsbD_of_rxTarget htarget)
      rw [hspaced n htarget]
      rfl

theorem step {l : Label} {p q : Sys × Reported} (hinv : StampInv p mask) (hspaced : Spaced p.1 l)
    (hzero : p.1.ZeroApart l) (hok : Timely p l) (hstep : stampStep l p = some q) :
    StampInv q (p.1.nextMask mask l) := by
  rcases p with ⟨s, h⟩
  rcases q with ⟨t, h'⟩
  rcases withHistory_eq_some.1 hstep with ⟨hsys, rfl⟩
  refine ⟨hinv.delivery.step hspaced hinv.shadows.zero hsys, hinv.shadows.step hzero hsys, ?_⟩
  rcases Option.map_eq_some_iff.1 hsys with ⟨u, hmove, rfl⟩
  cases l with
  | canService =>
      have hu := hinv.can hok (canMove_of_canStep hmove)
      exact hu
  | reader =>
      have hm : ReaderMove s u := readerMove_of_readerStep hmove
      rcases hm.inCall with ⟨p, hp⟩
      have hu := hinv.reader hm hp
      simp only [Sys.nextMask, hp]
      exact hu
  | receive buf =>
      rcases Sys.eq_of_receive hmove with ⟨hreader, rfl⟩
      have ht := hinv.times
      rw [show (s, h).1.reader = none from hreader] at ht
      exact ht.setReader (fun _ => id) (fun _ => rfl) rfl
  | arrive img =>
      cases hmove
      exact hinv.arrive hspaced
  | _ =>
      have hsame := Sys.sameReceive rfl hmove
      have ht := hinv.times
      rw [← hsame.can, ← hsame.reader, ← hsame.lastRxTime] at ht
      exact ht

theorem boot (r : Regs) : StampInv (Sys.boot r, fun _ => none) 0#8 := by
  refine ⟨.boot r, .boot r, nofun, ?_, nofun⟩
  rintro n (hserves | hset)
  · cases hserves
  · rw [BitVec.getLsbD_zero] at hset
    cases hset

theorem keepsStamp {p : Sys × Reported} (hinv : StampInv p mask) : KeepsStamp p := by
  intro t n x now tr hstep hreader htrace
  rcases Option.map_eq_some_iff.1 hstep with ⟨u, hmove, rfl⟩
  have hm := readerMove_of_readerStep hmove
  cases hm with
  | done m now' a k x' hpc hrest =>
      cases htrace
      -- Only the last answer of a read returns a frame.
      exact hinv.times.picks n now (by rw [hpc]; exact beq_self_eq_true n) (by rw [hpc]; rfl)
  | _ => cases hreader

end StampInv

/-! ## Runs -/

/-- Every run of the system has its record. -/
theorem exists_reported {ok : Sys → Label → Prop} {ls : List Label}
    (hrun : Run Sys.step ok s ls t) (h : Reported) :
    ∃ h', Run stampStep (fun p l => ok p.1 l) (s, h) ls (t, h') :=
  hrun.record

/-- Every call returns the time at which its frame was reported. -/
def AlwaysKeepsStamp : Prop :=
  ∀ (r : Regs) (ls : List Label) (q : Sys × Reported),
    Run stampStep (fun p l => Spaced p.1 l) (Sys.boot r, fun _ => none) ls q → KeepsStamp q

/-- Two frames with the edge at 1; the one in RXB0 is returned, and a third comes, with the edge at
2, which is returned as well.  The last step is missing that returns the frame in RXB1. -/
def laterEdgeSchedule : List Label :=
  .canService :: .arrive (oneByte 0x10#8 0x11#8) :: .irqHandler 1 ::
    .arrive (oneByte 0x20#8 0x22#8) :: List.replicate 12 .canService ++
    .receive (fun _ => 0#8) :: List.replicate 9 .reader ++
    .arrive (oneByte 0x30#8 0x33#8) :: .irqHandler 2 :: List.replicate 8 .canService ++
    .receive (fun _ => 0#8) :: List.replicate 9 .reader ++
    .receive (fun _ => 0#8) :: List.replicate 8 .reader

/-- The next step of the reader returns a time that is not the one at which the frame was
reported. -/
def returnsOther (p : Sys × Reported) : Bool :=
  match Sys.step .reader p.1 with
  | some t =>
      match t.trace with
      | .returned n _ now :: _ => t.reader.isNone && p.2 n != some now
      | _ => false
  | none => false

/-- The frame in RXB1 comes with the time of the third frame. -/
theorem not_alwaysKeepsStamp : ¬ AlwaysKeepsStamp := by
  intro h
  rcases exists_run_of_exec stampStep (fun p l => Spaced p.1 l)
    (Sys.boot rolloverRegs, fun _ => none) laterEdgeSchedule returnsOther (by decide +kernel)
    with ⟨q, hrun, hother⟩
  have hkeeps := h _ _ _ hrun
  unfold returnsOther at hother
  split at hother
  · rename_i t hstep
    split at hother
    · rename_i n x now tr htrace
      rcases Bool.and_eq_true_iff.1 hother with ⟨hreader, hne⟩
      -- The edge of the third frame has overwritten the time before the second was returned.
      have hnow := hkeeps t n x now tr hstep (Option.isNone_iff_eq_none.1 hreader) htrace
      rw [hnow] at hne
      exact bne_iff_ne.1 hne rfl
    · cases hother
  · cases hother

/-- In every run in which the stores to `_lastRxTime` are timely, and bit 0 of the mask is not
disturbed, every call returns the time at which its frame was reported. -/
theorem keepsStamp_of_timely {r : Regs} {ls : List Label} {q : Sys × Reported}
    (h : Run stampStep (fun p l => Spaced p.1 l ∧ p.1.ZeroApart l ∧ Timely p l)
      (Sys.boot r, fun _ => none) ls q) : KeepsStamp q := by
  have hinv : ∃ mask, StampInv q mask := by
    refine h.invariant (I := fun p => ∃ mask, StampInv p mask) ?_ ⟨_, .boot r⟩
    rintro p l u ⟨mask, hinv⟩ hok hstep
    exact ⟨_, hinv.step hok.1 hok.2.1 hok.2.2 hstep⟩
  rcases hinv with ⟨mask, hinv⟩
  exact hinv.keepsStamp

/-- Two frames that one value of `CANINTF` reports, with the edge at 1, and a third with its own
edge, at 2. -/
theorem keepsStamp_of_timely_three :
    ∃ q : Sys × Reported, q.2 .b0 = some 2 ∧ q.2 .b1 = some 1 ∧ KeepsStamp q := by
  rcases exists_run_of_exec stampStep
    (fun p l => Spaced p.1 l ∧ p.1.ZeroApart l ∧ Timely p l)
    (Sys.boot rolloverRegs, fun _ => none)
    (List.flatten
      [[.canService, .arrive (oneByte 0x10#8 0x11#8), .irqHandler 1,
          .arrive (oneByte 0x20#8 0x22#8)], List.replicate 12 .canService,
        [.receive fun _ => 0#8], List.replicate 9 .reader,
        [.receive fun _ => 0#8], List.replicate 9 .reader,
        [.arrive (oneByte 0x30#8 0x33#8), .irqHandler 2], List.replicate 8 .canService,
        [.receive fun _ => 0#8], List.replicate 8 .reader])
    (fun q => q.2 .b0 = some 2 && q.2 .b1 = some 1) (by decide +kernel) with ⟨q, hrun, htimes⟩
  rcases Bool.and_eq_true_iff.1 htimes with ⟨hb0, hb1⟩
  exact ⟨q, of_decide_eq_true hb0, of_decide_eq_true hb1, keepsStamp_of_timely hrun⟩

end Mcp2515Task
end PicoCppSdk
