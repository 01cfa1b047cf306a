import PicoCppSdk.Mcp2515.Codec

/-!
# Filter — acceptance filters, masks and the frames they match

`setFilter` and `setMask` program eight blocks of four registers.  A history of calls leaves in
every block the encoding of the last call that addressed it (`applyCalls_block`); together with the
controller's acceptance rule this says which frames of `txBuffer0Send` a programmed filter lets
through.
-/

namespace PicoCppSdk
namespace Mcp2515

open Atomic

/-! ## The controller's acceptance rule -/

/-- A block `SIDH`, `SIDL`, `EID8`, `EID0` of acceptance registers. -/
inductive AccBlock where
  | filter (i : Fin 6)
  | mask (i : Fin 2)
  deriving DecidableEq

namespace AccBlock

/-- The address of the block's `SIDH`. -/
def base : AccBlock → Byte
  | .filter i => filterSidh (BitVec.ofNat 8 i)
  | .mask i => maskSidh (BitVec.ofNat 8 i)

/-- The control register of the receive buffer that the block belongs to. -/
def rxbCtrl : AccBlock → Byte
  | .filter i => if i < 2 then RXB0CTRL else RXB1CTRL
  | .mask i => if i = 0 then RXB0CTRL else RXB1CTRL

/-- The register at offset `k` from the block's `SIDH`. -/
def byte (b : AccBlock) (r : Regs) (k : Nat) : Byte := r (b.base + BitVec.ofNat 8 k)

end AccBlock

/-- The mask of the buffer that filter `f` belongs to. -/
def maskFor (f : Fin 6) : Fin 2 :=
  if f < 2 then 0 else 1

/-- The acceptance rule for filter `f`: the filter's `EXIDE` bit selects the kind, and every
identifier bit whose mask bit is set has to equal the filter bit.  For a standard frame the bits
EID15 to EID0 are compared with the first two data bytes; `assembly` stands for the bytes that are
compared where the frame has fewer. -/
def accepts (r : Regs) (f : Fin 6) (assembly : Nat → Byte) (frame : CanFrame) : Prop :=
  let flt := (AccBlock.filter f).byte r
  let msk := (AccBlock.mask (maskFor f)).byte r
  if (flt 1).getLsbD 3 then
    frame.extended = true ∧
      (identExtended (flt 0) (flt 1) (flt 2) (flt 3) ^^^ frame.ident) &&&
        identExtended (msk 0) (msk 1) (msk 2) (msk 3) = 0#29
  else
    frame.extended = false ∧
      (identStandard (flt 0) (flt 1) ^^^ frame.ident.setWidth 11) &&&
        identStandard (msk 0) (msk 1) = 0#11 ∧
      (flt 2 ^^^ frame.data.getD 0 (assembly 0)) &&& msk 2 = 0#8 ∧
      (flt 3 ^^^ frame.data.getD 1 (assembly 1)) &&& msk 3 = 0#8

/-! ## Calls of `setFilter` and `setMask` -/

inductive FilterCall where
  | setFilter (filterId : Byte) (canId : BitVec 32) (extended : Bool)
  | setMask (maskId : Byte) (mask : BitVec 32) (extended : Bool)

namespace FilterCall

def driver : FilterCall → Driver Unit
  | .setFilter filterId canId extended => Mcp2515.setFilter filterId canId extended
  | .setMask maskId mask extended => Mcp2515.setMask maskId mask extended

/-- The block that a call addresses; none if its index is out of range. -/
def target : FilterCall → Option AccBlock
  | .setFilter filterId _ _ =>
      if h : filterId.toNat < 6 then some (.filter ⟨filterId.toNat, h⟩) else none
  | .setMask maskId _ _ =>
      if h : maskId.toNat < 2 then some (.mask ⟨maskId.toNat, h⟩) else none

/-- The identifier or mask and the kind that a call passes. -/
def value : FilterCall → BitVec 32 × Bool
  | .setFilter _ canId extended => (canId, extended)
  | .setMask _ mask extended => (mask, extended)

end FilterCall

/-- The registers after a history of calls. -/
def applyCalls (calls : List FilterCall) (r : Regs) : Regs :=
  calls.foldl (fun r c => (c.driver.run BusAct.onRegs r).2) r

/-- What the last call for block `b` passed. -/
def lastCall (b : AccBlock) : List FilterCall → Option (BitVec 32 × Bool)
  | [] => none
  | c :: cs => (lastCall b cs).or (if c.target = some b then some c.value else none)

/-- The byte that `writeFilterOrMask` writes at offset `k`. -/
def accByte (id : BitVec 32) (extended : Bool) : Nat → Byte
  | 0 => if extended then u8 (id >>> 21 &&& 0xFF#32) else u8 (id >>> 3 &&& 0xFF#32)
  | 1 =>
      if extended then
        u8 (u32 EXIDE_SET ||| (id >>> 18 &&& 0x07#32) <<< 5 ||| id >>> 16 &&& 0x03#32)
      else
        u8 ((id &&& 0x07#32) <<< 5)
  | 2 => if extended then u8 (id >>> 8 &&& 0xFF#32) else 0x00#8
  | _ => if extended then u8 (id &&& 0xFF#32) else 0x00#8

/-! ## What one call does -/

theorem writeFilterOrMask_run (sidh : Byte) (id : BitVec 32) (extended : Bool) (r : Regs)
    (a : Byte) :
    ((writeFilterOrMask sidh id extended).run BusAct.onRegs r).2 a =
      if (a - sidh).toNat < 4 then accByte id extended (a - sidh).toNat else r a := by
  -- The four writes, told apart by their offset in the block.
  have h0 : a = sidh ↔ (a - sidh).toNat = 0 := by
    simpa using eq_add_ofNat_iff (a := a) (b := sidh) (k := 0) (by decide)
  have h1 : a = sidh + 1 ↔ (a - sidh).toNat = 1 := eq_add_ofNat_iff (by decide)
  have h2 : a = sidh + 2 ↔ (a - sidh).toNat = 2 := eq_add_ofNat_iff (by decide)
  have h3 : a = sidh + 3 ↔ (a - sidh).toNat = 3 := eq_add_ofNat_iff (by decide)
  have hrun : ((writeFilterOrMask sidh id extended).run BusAct.onRegs r).2 a =
      if a = sidh + 3 then accByte id extended 3
      else if a = sidh + 2 then accByte id extended 2
      else if a = sidh + 1 then accByte id extended 1
      else if a = sidh then accByte id extended 0
      else r a := by
    cases extended <;>
      simp [writeFilterOrMask, writeByte, Regs.write, Function.update_apply, accByte]
  rw [hrun]
  simp only [h0, h1, h2, h3]
  by_cases hlt : (a - sidh).toNat < 4
  · rw [if_pos hlt]
    generalize (a - sidh).toNat = k at hlt
    interval_cases k <;> rfl
  · rw [if_neg hlt, if_neg (by omega), if_neg (by omega), if_neg (by omega), if_neg (by omega)]

/-- No control register lies in a block of acceptance registers. -/
theorem AccBlock.rxbCtrl_outside (b : AccBlock) :
    b.rxbCtrl ≠ CANCTRL ∧ ¬ (b.rxbCtrl - b.base).toNat < 4 := by
  cases b with
  | filter i =>
      revert i
      decide
  | mask i =>
      revert i
      decide

section Call

variable (b : AccBlock) (id : BitVec 32) (extended : Bool) (r : Regs)

/-- Programming a block: the receive buffer's control register loses its `RXM` bits, normal mode is
requested, the block holds the encoding, and no other register changes. -/
theorem programFilterOrMask_run (a : Byte) :
    ((programFilterOrMask b.base b.rxbCtrl id extended).run BusAct.onRegs r).2 a =
      if a = b.rxbCtrl then r b.rxbCtrl &&& ~~~RXM
      else if a = CANCTRL then REQOP_NORMAL ||| CLKOUT_ENABLED
      else if (a - b.base).toNat < 4 then accByte id extended (a - b.base).toNat
      else r a := by
  rcases b.rxbCtrl_outside with ⟨hne, hout⟩
  have hrun : ((programFilterOrMask b.base b.rxbCtrl id extended).run BusAct.onRegs r).2 =
      let r' := ((writeFilterOrMask b.base id extended).run BusAct.onRegs
        (r.write CANCTRL REQOP_CONFIG)).2.write CANCTRL (REQOP_NORMAL ||| CLKOUT_ENABLED)
      r'.write b.rxbCtrl (r' b.rxbCtrl &&& ~~~RXM) := by
    simp only [programFilterOrMask, lock, unlock, Prog.run_bind, Prog.run_act, Prog.run_ret,
      writeByte, readByte, BusAct.onRegs]
  -- The receive buffer control register is neither in the block nor `CANCTRL`.
  have hctrl : ((writeFilterOrMask b.base id extended).run BusAct.onRegs
      (r.write CANCTRL REQOP_CONFIG)).2 b.rxbCtrl = r b.rxbCtrl := by
    rw [writeFilterOrMask_run, if_neg hout, Regs.write_of_ne hne]
  rw [hrun]
  simp only [Regs.write, Function.update_apply, if_neg hne]
  by_cases ha : a = b.rxbCtrl
  · rw [if_pos ha, if_pos ha]
    exact congrArg (· &&& ~~~RXM) hctrl
  · rw [if_neg ha, if_neg ha]
    by_cases hc : a = CANCTRL
    · rw [if_pos hc, if_pos hc]
    · rw [if_neg hc, if_neg hc]
      have hw := writeFilterOrMask_run b.base id extended (r.write CANCTRL REQOP_CONFIG) a
      rw [Regs.write_of_ne hc] at hw
      exact hw

end Call

namespace FilterCall

/-- A call with an index in range programs the block it addresses. -/
theorem driver_of_target {c : FilterCall} {b : AccBlock} (h : c.target = some b) :
    c.driver = programFilterOrMask b.base b.rxbCtrl c.value.1 c.value.2 := by
  cases c with
  | setFilter filterId canId extended =>
      by_cases hlt : filterId.toNat < 6
      · have hb : AccBlock.filter ⟨filterId.toNat, hlt⟩ = b := by
          simpa [target, hlt] using h
        have hrange : ¬ 6#8 ≤ filterId := by
          simpa [BitVec.le_def] using hlt
        -- Filters 0 and 1 belong to RXB0, the others to RXB1.
        have htwo : (⟨filterId.toNat, hlt⟩ : Fin 6) < 2 ↔ filterId < 2#8 := by
          rw [BitVec.lt_def, Fin.lt_def]
          rfl
        subst hb
        simp [driver, Mcp2515.setFilter, hrange, AccBlock.base, AccBlock.rxbCtrl, htwo, value]
      · simp [target, hlt] at h
  | setMask maskId mask extended =>
      by_cases hlt : maskId.toNat < 2
      · have hb : AccBlock.mask ⟨maskId.toNat, hlt⟩ = b := by
          simpa [target, hlt] using h
        have hrange : ¬ 2#8 ≤ maskId := by
          simpa [BitVec.le_def] using hlt
        have hctrl : [RXB0CTRL, RXB1CTRL].getD maskId.toNat 0 =
            (AccBlock.mask ⟨maskId.toNat, hlt⟩).rxbCtrl := by
          generalize maskId.toNat = k at hlt
          interval_cases k <;> rfl
        subst hb
        rw [← hctrl]
        simp [driver, Mcp2515.setMask, hrange, AccBlock.base, value]
      · simp [target, hlt] at h

/-- A call with an index out of range does nothing. -/
theorem driver_of_none {c : FilterCall} (h : c.target = none) : c.driver = pure () := by
  cases c with
  | setFilter filterId canId extended =>
      have hge : 6#8 ≤ filterId := by
        by_contra hlt
        have hlt' : filterId.toNat < 6 := by simpa [BitVec.le_def] using hlt
        simp [target, hlt'] at h
      simp [driver, Mcp2515.setFilter, hge]
  | setMask maskId mask extended =>
      have hge : 2#8 ≤ maskId := by
        by_contra hlt
        have hlt' : maskId.toNat < 2 := by simpa [BitVec.le_def] using hlt
        simp [target, hlt'] at h
      simp [driver, Mcp2515.setMask, hge]

end FilterCall

/-! ## Histories of calls -/

/-- The blocks do not overlap. -/
theorem AccBlock.base_disjoint {b b' : AccBlock} (hne : b ≠ b') {k : Nat} (hk : k < 4) :
    ¬ (b.base + BitVec.ofNat 8 k - b'.base).toNat < 4 := by
  interval_cases k <;> rcases b with i | i <;> rcases b' with j | j <;> revert i j <;> decide

theorem AccBlock.base_ctrl (b b' : AccBlock) {k : Nat} (hk : k < 4) :
    b.base + BitVec.ofNat 8 k ≠ b'.rxbCtrl ∧ b.base + BitVec.ofNat 8 k ≠ CANCTRL := by
  interval_cases k <;> rcases b with i | i <;> rcases b' with j | j <;> revert i j <;> decide

/-- One call: the block it addresses holds the encoding of its arguments, every other block keeps
its content. -/
theorem FilterCall.driver_byte (c : FilterCall) (b : AccBlock) (r : Regs) {k : Nat} (hk : k < 4) :
    b.byte (c.driver.run BusAct.onRegs r).2 k =
      if c.target = some b then accByte c.value.1 c.value.2 k else b.byte r k := by
  cases htarget : c.target with
  | none =>
      rw [c.driver_of_none htarget]
      simp
  | some b' =>
      rcases b.base_ctrl b' hk with ⟨hctrl, hcan⟩
      rw [AccBlock.byte, c.driver_of_target htarget, programFilterOrMask_run, if_neg hctrl,
        if_neg hcan]
      by_cases hb : b' = b
      · subst hb
        rw [add_ofNat_sub_toNat _ (by omega), if_pos hk, if_pos rfl]
      · have hb' : some b' ≠ some b := fun h => hb (Option.some.inj h)
        rw [if_neg (AccBlock.base_disjoint (Ne.symm hb) hk), if_neg hb']
        rfl

/-- After any history a block holds the encoding of the last call that addressed it. -/
theorem applyCalls_byte (b : AccBlock) {k : Nat} (hk : k < 4) :
    ∀ (calls : List FilterCall) (r : Regs),
      b.byte (applyCalls calls r) k =
        match lastCall b calls with
        | some v => accByte v.1 v.2 k
        | none => b.byte r k := by
  intro calls
  -- Induction on the calls: a later one that addresses the block decides, else the first one.
  induction calls with
  | nil =>
      intro r
      rfl
  | cons c cs ih =>
      intro r
      have hstep := c.driver_byte b r hk
      have hrest := ih (c.driver.run BusAct.onRegs r).2
      simp only [applyCalls, List.foldl_cons] at hrest ⊢
      rw [hrest]
      cases hlast : lastCall b cs with
      | some v =>
          simp [lastCall, hlast]
      | none =>
          by_cases ht : c.target = some b
          · simp [lastCall, hlast, ht, hstep]
          · simp [lastCall, hlast, ht, hstep]

/-! ## Encodings agree -/

section Agree

theorem identExtended_accByte (id : BitVec 32) :
    identExtended (accByte id true 0) (accByte id true 1) (accByte id true 2) (accByte id true 3) =
      id.setWidth 29 := by
  apply BitVec.eq_of_getLsbD_eq
  intro i hi
  simp only [identExtended, accByte, if_true, BitVec.getLsbD_append]
  interval_cases i <;> simp

theorem identStandard_accByte (id : BitVec 32) :
    identStandard (accByte id false 0) (accByte id false 1) = id.setWidth 11 := by
  apply BitVec.eq_of_getLsbD_eq
  intro i hi
  simp only [identStandard, accByte, Bool.false_eq_true, if_false, BitVec.getLsbD_append]
  interval_cases i <;> simp

theorem accByte_exide (id : BitVec 32) (extended : Bool) :
    (accByte id extended 1).getLsbD 3 = extended := by
  cases extended <;> simp [accByte]

/-- Two identifiers agree where the mask is set, on the low `k` bits. -/
theorem setWidth_and_eq_zero {k : Nat} (hk : k ≤ 32) (x : BitVec 32) :
    x.setWidth k = 0#k ↔ x &&& BitVec.ofNat 32 (2 ^ k - 1) = 0#32 := by
  have hlow : ∀ i, (BitVec.ofNat 32 (2 ^ k - 1)).getLsbD i = decide (i < k ∧ i < 32) := by
    intro i
    rw [BitVec.getLsbD_ofNat, Nat.testBit_two_pow_sub_one]
    by_cases h32 : i < 32 <;> by_cases hik : i < k <;> simp [h32, hik]
  constructor
  · intro h
    apply BitVec.eq_of_getLsbD_eq
    intro i hi
    have hbit := congrArg (fun y : BitVec k => y.getLsbD i) h
    simp only [BitVec.getLsbD_setWidth, BitVec.getLsbD_zero] at hbit
    rw [BitVec.getLsbD_and, hlow, BitVec.getLsbD_zero]
    by_cases hik : i < k <;> simp_all
  · intro h
    apply BitVec.eq_of_getLsbD_eq
    intro i hi
    have hbit := congrArg (fun y : BitVec 32 => y.getLsbD i) h
    simp only [BitVec.getLsbD_and, hlow, BitVec.getLsbD_zero] at hbit
    have h32 : i < 32 := lt_of_lt_of_le hi hk
    simp_all

/-- A filter and its mask, last programmed with one kind, let a frame of `txBuffer0Send` through
exactly when it has that kind and its identifier agrees with `id` where the mask is set.  This
holds for every `id`, in particular when `extended` is the kind that `txBuffer0Send` infers. -/
theorem accepts_sent_iff (calls : List FilterCall) (f : Fin 6) (id msk : BitVec 32)
    (extended : Bool)
    (hfilter : lastCall (.filter f) calls = some (id, extended))
    (hmask : lastCall (.mask (maskFor f)) calls = some (msk, extended))
    (r t : Regs) (assembly : Nat → Byte) (id' : BitVec 32) (buf : Nat → Byte) (len : Byte)
    (hlen : len ≤ 8#8) :
    accepts (applyCalls calls r) f assembly (txFrame (sentRegs id' buf len t)) ↔
      decide (0x7FF#32 < id') = extended ∧
        (id ^^^ id') &&& msk &&& (if extended then 0x1FFFFFFF#32 else 0x7FF#32) = 0#32 := by
  have hflt : ∀ k, k < 4 →
      (AccBlock.filter f).byte (applyCalls calls r) k = accByte id extended k := by
    intro k hk
    rw [applyCalls_byte _ hk, hfilter]
  have hmsk : ∀ k, k < 4 →
      (AccBlock.mask (maskFor f)).byte (applyCalls calls r) k = accByte msk extended k := by
    intro k hk
    rw [applyCalls_byte _ hk, hmask]
  rw [txFrame_sentRegs id' buf len t hlen]
  simp only [accepts]
  rw [hflt 0 (by decide), hflt 1 (by decide), hflt 2 (by decide), hflt 3 (by decide),
    hmsk 0 (by decide), hmsk 1 (by decide), hmsk 2 (by decide), hmsk 3 (by decide),
    accByte_exide]
  cases extended with
  | true =>
      simp only [if_true, identExtended_accByte, CanFrame.ofCall]
      rw [← BitVec.setWidth_xor, ← BitVec.setWidth_and]
      exact and_congr_right fun _ => setWidth_and_eq_zero (by decide) _
  | false =>
      have hident : ((id'.setWidth 29).setWidth 11) = id'.setWidth 11 := by
        simp
      simp only [Bool.false_eq_true, if_false, identStandard_accByte, CanFrame.ofCall, hident]
      rw [← BitVec.setWidth_xor, ← BitVec.setWidth_and]
      -- The mask bits EID15 to EID0 are zero, so the data bytes do not count.
      have hzero : ∀ x : Byte, x &&& 0x00#8 = 0#8 := by
        intro x
        simp
      simp only [accByte, Bool.false_eq_true, if_false, hzero, and_self, and_true]
      exact and_congr_right fun _ => setWidth_and_eq_zero (k := 11) (by decide) _

theorem accepts_sent_iff_filter1 :
    accepts
        (applyCalls [.setMask 0#8 0x700#32 false, .setFilter 1#8 0x123#32 false,
          .setFilter 9#8 0x7#32 true] fun _ => 0xFF#8)
        1 (fun _ => 0#8) (txFrame (sentRegs 0x1FF#32 (fun _ => 0x55#8) 2#8 fun _ => 0xFF#8)) ↔
      decide (0x7FF#32 < 0x1FF#32) = false ∧
        (0x123#32 ^^^ 0x1FF#32) &&& 0x700#32 &&& (if false then 0x1FFFFFFF#32 else 0x7FF#32) = 0#32 :=
  accepts_sent_iff
    [.setMask 0#8 0x700#32 false, .setFilter 1#8 0x123#32 false, .setFilter 9#8 0x7#32 true]
    1 0x123#32 0x700#32 false (by decide) (by decide) (fun _ => 0xFF#8) (fun _ => 0xFF#8)
    (fun _ => 0#8) 0x1FF#32 (fun _ => 0x55#8) 2#8 (by decide)

end Agree

/-! ## Independence of the payload -/

section Payload

/-- Two standard data frames with one identifier fare alike at filter `f`, whatever they carry. -/
def IgnoresPayload (r : Regs) (f : Fin 6) : Prop :=
  ∀ (g h : CanFrame) (assembly assembly' : Nat → Byte),
    g.extended = false → h.extended = false → g.remote = false → h.remote = false →
      g.ident = h.ident → (accepts r f assembly g ↔ accepts r f assembly' h)

/-- A register file whose filters and masks are all zero. -/
def BlankAcceptance (r : Regs) : Prop :=
  ∀ (b : AccBlock) (k : Nat), k < 4 → b.byte r k = 0#8

/-- Filters for standard frames ignore the payload after every history of calls. -/
def StandardFiltersIgnorePayload : Prop :=
  ∀ (calls : List FilterCall) (r : Regs) (f : Fin 6) (id : BitVec 32), BlankAcceptance r →
    lastCall (.filter f) calls = some (id, false) → IgnoresPayload (applyCalls calls r) f

theorem setWidth_sid_le (sid : BitVec 11) : sid.setWidth 29 ≤ 0x7FF#29 := by
  have hlt := sid.isLt
  simp only [BitVec.le_def, BitVec.toNat_setWidth, BitVec.toNat_ofNat]
  omega

/-- The standard data frame with two bytes of payload. -/
def CanFrame.standardPair (sid : BitVec 11) (b0 b1 : Byte) : CanFrame where
  extended := false
  ident := sid.setWidth 29
  remote := false
  dlc := 2#4
  data := [b0, b1]
  ident_le _ := setWidth_sid_le sid
  data_length := rfl

section Accepts

variable {r : Regs} {f : Fin 6} {id : BitVec 32}

/-- A filter for standard frames compares the payload where the mask has EID bits. -/
theorem accepts_standard_iff
    (hflt : ∀ k, k < 4 → (AccBlock.filter f).byte r k = accByte id false k)
    (assembly : Nat → Byte) {g : CanFrame} (hext : g.extended = false) :
    accepts r f assembly g ↔
      (id.setWidth 11 ^^^ g.ident.setWidth 11) &&&
          identStandard ((AccBlock.mask (maskFor f)).byte r 0)
            ((AccBlock.mask (maskFor f)).byte r 1) = 0#11 ∧
        g.data.getD 0 (assembly 0) &&& (AccBlock.mask (maskFor f)).byte r 2 = 0#8 ∧
        g.data.getD 1 (assembly 1) &&& (AccBlock.mask (maskFor f)).byte r 3 = 0#8 := by
  have h2 : accByte id false 2 = 0#8 := rfl
  have h3 : accByte id false 3 = 0#8 := rfl
  simp only [accepts]
  rw [hflt 0 (by decide), hflt 1 (by decide), hflt 2 (by decide), hflt 3 (by decide),
    accByte_exide, identStandard_accByte, h2, h3]
  simp [hext]

/-- The payload counts for nothing exactly if the mask leaves out EID15 to EID0. -/
theorem ignoresPayload_iff
    (hflt : ∀ k, k < 4 → (AccBlock.filter f).byte r k = accByte id false k) :
    IgnoresPayload r f ↔
      (AccBlock.mask (maskFor f)).byte r 2 = 0#8 ∧ (AccBlock.mask (maskFor f)).byte r 3 = 0#8 := by
  constructor
  · intro hsame
    -- The filter lets its own identifier through with a payload of zeros; with the mask itself as
    -- the payload, every mask bit is a mismatch.
    let zeros := CanFrame.standardPair (id.setWidth 11) 0#8 0#8
    let ones := CanFrame.standardPair (id.setWidth 11) ((AccBlock.mask (maskFor f)).byte r 2)
      ((AccBlock.mask (maskFor f)).byte r 3)
    have hzeros : accepts r f (fun _ => 0#8) zeros := by
      refine (accepts_standard_iff hflt (fun _ => 0#8) rfl).2 ?_
      simp [zeros, CanFrame.standardPair]
    have hones : accepts r f (fun _ => 0#8) ones :=
      (hsame zeros ones _ _ rfl rfl rfl rfl rfl).1 hzeros
    have hbytes := ((accepts_standard_iff hflt (fun _ => 0#8) (g := ones) rfl).1 hones).2
    simpa [ones, CanFrame.standardPair] using hbytes
  · rintro ⟨h2, h3⟩ g h assembly assembly' hg hh _ _ hid
    rw [accepts_standard_iff hflt _ hg, accepts_standard_iff hflt _ hh, h2, h3, hid]
    simp

end Accepts

/-- The EID registers of an extended mask are its low 16 bits. -/
theorem accByte_eid_eq_zero (m : BitVec 32) :
    accByte m true 2 = 0#8 ∧ accByte m true 3 = 0#8 ↔ m &&& 0xFFFF#32 = 0#32 := by
  have hlow := setWidth_and_eq_zero (k := 16) (by decide) m
  have happend : m.setWidth 16 = accByte m true 2 ++ accByte m true 3 := by
    apply BitVec.eq_of_getLsbD_eq
    intro i hi
    simp only [accByte, if_true, BitVec.getLsbD_setWidth, BitVec.getLsbD_append]
    interval_cases i <;> simp
  refine Iff.trans ?_ hlow
  rw [happend]
  constructor
  · rintro ⟨h2, h3⟩
    rw [h2, h3]
    rfl
  · intro h
    have hhigh := congrArg (BitVec.extractLsb' 8 8) h
    have hrest := congrArg (BitVec.extractLsb' 0 8) h
    rw [BitVec.extractLsb'_append_eq_left] at hhigh
    rw [BitVec.extractLsb'_append_eq_right] at hrest
    exact ⟨hhigh, hrest⟩

/-- What counts after a history of calls are the two EID registers of the mask. -/
theorem ignoresPayload_applyCalls {calls : List FilterCall} {r : Regs} {f : Fin 6}
    {id : BitVec 32} (hfilter : lastCall (.filter f) calls = some (id, false)) :
    IgnoresPayload (applyCalls calls r) f ↔
      (AccBlock.mask (maskFor f)).byte (applyCalls calls r) 2 = 0#8 ∧
        (AccBlock.mask (maskFor f)).byte (applyCalls calls r) 3 = 0#8 := by
  have hflt : ∀ k, k < 4 →
      (AccBlock.filter f).byte (applyCalls calls r) k = accByte id false k := by
    intro k hk
    rw [applyCalls_byte _ hk, hfilter]
  exact ignoresPayload_iff hflt

/-- After a history that started from blank registers a filter last programmed for standard frames
ignores the payload exactly if the mask it uses was last programmed for standard frames, or not at
all, or with none of its low 16 bits. -/
theorem standardFilter_ignoresPayload_iff (calls : List FilterCall) (r : Regs) (f : Fin 6)
    (id : BitVec 32) (hblank : BlankAcceptance r)
    (hfilter : lastCall (.filter f) calls = some (id, false)) :
    IgnoresPayload (applyCalls calls r) f ↔
      ∀ m, lastCall (.mask (maskFor f)) calls = some (m, true) → m &&& 0xFFFF#32 = 0#32 := by
  rw [ignoresPayload_applyCalls hfilter, applyCalls_byte _ (by decide),
    applyCalls_byte _ (by decide)]
  cases hmask : lastCall (.mask (maskFor f)) calls with
  | none =>
      simp [hblank _ 2 (by decide), hblank _ 3 (by decide)]
  | some v =>
      rcases v with ⟨m, extended⟩
      cases extended with
      | true =>
          simpa using accByte_eid_eq_zero m
      | false =>
          simp [accByte]

theorem standardFilter_ignoresPayload_iff_filter0 :
    IgnoresPayload
        (applyCalls [.setMask 0#8 0x1FFF0000#32 true, .setFilter 0#8 0x123#32 false] fun _ => 0#8) 0 ↔
      ∀ m, lastCall (.mask (maskFor 0))
          [.setMask 0#8 0x1FFF0000#32 true, .setFilter 0#8 0x123#32 false] = some (m, true) →
        m &&& 0xFFFF#32 = 0#32 :=
  standardFilter_ignoresPayload_iff
    [.setMask 0#8 0x1FFF0000#32 true, .setFilter 0#8 0x123#32 false] (fun _ => 0#8) 0 0x123#32
    (fun _ _ _ => rfl) (by decide)

/-- An exact mask for extended frames in front of a filter for standard ones: of two frames with
identifier 0x123, the one that carries zeros passes and the one that carries ones does not. -/
theorem not_standardFiltersIgnorePayload : ¬ StandardFiltersIgnorePayload := by
  intro h
  let calls : List FilterCall := [.setMask 0#8 0x1FFFFFFF#32 true, .setFilter 0#8 0x123#32 false]
  have hfilter : lastCall (.filter 0) calls = some (0x123#32, false) := by decide
  have hmask : lastCall (.mask (maskFor 0)) calls = some (0x1FFFFFFF#32, true) := by decide
  have hsame := h calls (fun _ => 0#8) 0 0x123#32 (fun _ _ _ => rfl) hfilter
  have hbyte := ((ignoresPayload_applyCalls hfilter).1 hsame).1
  rw [applyCalls_byte _ (by decide), hmask] at hbyte
  exact absurd hbyte (by decide)

end Payload

end Mcp2515
end PicoCppSdk
