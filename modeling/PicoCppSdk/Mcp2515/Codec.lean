import PicoCppSdk.Mcp2515.Frame

/-!
# Codec — the driver's encoder and decoders against the frame layouts

`txBuffer0Send` is shown to describe the intended frame in TXB0 whatever the registers held before,
and the two receive methods to recover from a buffer exactly the identifier, the length code and
the data bytes that the stored frame determines.  Their composition is the round trip; their limits
(no remote-request bit, no kind) are what a receiver cannot tell apart.
-/

namespace PicoCppSdk
namespace Mcp2515

open Atomic

/-! ## Bits of the layouts -/

section Bits

theorem getLsbD_of_toNat_lt {w k i : Nat} {x : BitVec w} (h : x.toNat < 2 ^ k) (hi : k ≤ i) :
    x.getLsbD i = false :=
  Nat.testBit_lt_two_pow (lt_of_lt_of_le h (Nat.pow_le_pow_right (by decide) hi))

theorem getElem_packSidl (sid : BitVec 3) (srr ide u : BitVec 1) (eid : BitVec 2) {i : Nat}
    (hi : i < 8) :
    (packSidl sid srr ide u eid)[i] =
      if i < 2 then eid.getLsbD i else if i < 3 then u.getLsbD (i - 2) else
      if i < 4 then ide.getLsbD (i - 3) else if i < 5 then srr.getLsbD (i - 4) else
        sid.getLsbD (i - 5) := by
  rw [← BitVec.getLsbD_eq_getElem]
  simp only [packSidl, BitVec.getLsbD_append]
  split_ifs <;> first | rfl | omega

theorem getElem_packDlc (u rtr : BitVec 1) (rb : BitVec 2) (dlc : BitVec 4) {i : Nat}
    (hi : i < 8) :
    (packDlc u rtr rb dlc)[i] =
      if i < 4 then dlc.getLsbD i else if i < 6 then rb.getLsbD (i - 4) else
      if i < 7 then rtr.getLsbD (i - 6) else u.getLsbD (i - 7) := by
  rw [← BitVec.getLsbD_eq_getElem]
  simp only [packDlc, BitVec.getLsbD_append]
  split_ifs <;> first | rfl | omega

theorem CanFrame.ident_high (f : CanFrame) (hext : f.extended = false) {i : Nat} (hi : i < 29)
    (h11 : 11 ≤ i) : f.ident[i] = false := by
  rw [← BitVec.getLsbD_eq_getElem]
  exact getLsbD_of_toNat_lt (Nat.lt_succ_of_le (f.ident_le hext)) h11

end Bits

/-! ## Decoding a stored frame -/

section Decode

variable (f : CanFrame) (old : RxImage)

/-- The identifier that a decoder puts together is the one the controller took apart. -/
theorem decodeId_image :
    decodeId (f.image old).sidh (f.image old).sidl (f.image old).eid8 (f.image old).eid0 =
      f.ident.setWidth 32 := by
  cases hext : f.extended with
  | true =>
      -- Bit 3 of SIDL tells the decoder which of the two layouts it has.
      have hide : (f.image old).sidl &&& EXIDE_SET ≠ 0#8 := by
        intro h
        have hbit := congrArg (fun x : Byte => x.getLsbD 3) h
        simp [CanFrame.image, hext, getElem_packSidl] at hbit
      rw [decodeId, if_pos hide]
      apply BitVec.eq_of_getLsbD_eq
      intro i hi
      simp only [CanFrame.image, hext, if_true]
      interval_cases i <;> simp [getElem_packSidl]
  | false =>
      have hide : ¬ ((f.image old).sidl &&& EXIDE_SET ≠ 0#8) := by
        rw [not_not]
        apply BitVec.eq_of_getLsbD_eq
        intro i hi
        interval_cases i <;> simp [CanFrame.image, hext, getElem_packSidl]
      -- A standard identifier has 11 bits, and the decoder finds no others.
      have hhigh : ∀ (i : Nat) (hi : i < 29), 11 ≤ i → f.ident[i] = false := by
        intro i hi h11
        exact f.ident_high hext hi h11
      rw [decodeId, if_neg hide]
      apply BitVec.eq_of_getLsbD_eq
      intro i hi
      simp only [CanFrame.image, hext, Bool.false_eq_true, if_false]
      interval_cases i <;> simp [hhigh, getElem_packSidl]

theorem image_dlc : (f.image old).dlc &&& 0x0F#8 = f.dlc.setWidth 8 := by
  apply BitVec.eq_of_getLsbD_eq
  intro i hi
  simp only [CanFrame.image]
  interval_cases i <;> simp [getElem_packDlc]

theorem image_byte_data {i : Nat} (hi : i < 8) :
    (f.image old).byte (5 + i) = f.data.getD i (old.data ⟨i, hi⟩) := by
  rw [Nat.add_comm]
  simp [RxImage.byte, hi, CanFrame.image]

end Decode

/-- `rxBuffer0Read` or `rxBuffer1Read`. -/
def rxRead : RxBuf → (Nat → Byte) → Driver Received
  | .b0 => rxBuffer0Read
  | .b1 => rxBuffer1Read

/-- Both methods read their buffer's registers at the same offsets from `SIDH`. -/
theorem rxRead_eq (n : RxBuf) (buf : Nat → Byte) :
    rxRead n buf =
      rxBufferRead (n.base + BitVec.ofNat 8 0) (n.base + BitVec.ofNat 8 1)
        (n.base + BitVec.ofNat 8 4) (n.base + BitVec.ofNat 8 2) (n.base + BitVec.ofNat 8 3)
        (n.base + BitVec.ofNat 8 5) buf := by
  cases n <;> rfl

/-- What a read stores when the buffer holds the registers `img`. -/
def RxImage.received (img : RxImage) (buf : Nat → Byte) : Received where
  canId := decodeId img.sidh img.sidl img.eid8 img.eid0
  buf := fun i => if i < (img.dlc &&& 0x0F#8).toNat then img.byte (5 + i) else buf i
  len := img.dlc &&& 0x0F#8

/-- With a length code of at most 8 a read returns the registers of its own buffer only. -/
theorem rxRead_load (n : RxBuf) (img : RxImage) (hdlc : img.dlc &&& 0x0F#8 ≤ 8#8) (r : Regs)
    (buf : Nat → Byte) :
    (rxRead n buf).run BusAct.onRegs (r.load n img) = (img.received buf, r.load n img) := by
  have hat : ∀ k, k < 13 → r.load n img (n.base + BitVec.ofNat 8 k) = img.byte k := by
    intro k hk
    exact r.load_base n img hk
  have hlen : (img.dlc &&& 0x0F#8).toNat ≤ 8 := hdlc
  have hdata : (fun i => if i < (img.dlc &&& 0x0F#8).toNat then
      r.load n img (n.base + BitVec.ofNat 8 5 + BitVec.ofNat 8 i) else buf i) =
      (img.received buf).buf := by
    funext i
    by_cases hi : i < (img.dlc &&& 0x0F#8).toNat
    · have hadd : n.base + BitVec.ofNat 8 5 + BitVec.ofNat 8 i =
          n.base + BitVec.ofNat 8 (5 + i) := by
        rw [BitVec.add_assoc, ← BitVec.ofNat_add]
      simp only [RxImage.received, if_pos hi, hadd]
      exact hat (5 + i) (by omega)
    · simp only [RxImage.received, if_neg hi]
  rw [rxRead_eq, rxBufferRead_run]
  rw [hat 0 (by decide), hat 1 (by decide), hat 2 (by decide), hat 3 (by decide),
    hat 4 (by decide)]
  exact Prod.ext (congrArg (Received.mk _ · _) hdata) rfl

/-- The bytes that a caller finds in the first `len` places of its buffer. -/
def Received.data (x : Received) : List Byte :=
  (List.range x.len.toNat).map x.buf

/-- A read of a stored frame returns its identifier, its length code and, if the frame carried
data, these data; of a remote frame, the registers' residue. -/
theorem rxRead_image (n : RxBuf) (f : CanFrame) (hdlc : f.dlc ≤ 8#4) (old : RxImage) (r : Regs)
    (buf : Nat → Byte) :
    let x := ((rxRead n buf).run BusAct.onRegs (r.load n (f.image old))).1
    x.canId = f.ident.setWidth 32 ∧ x.len = f.dlc.setWidth 8 ∧
      (∀ i, i < f.dlc.toNat → x.buf i = f.data.getD i (old.byte (5 + i))) ∧
      ∀ i, f.dlc.toNat ≤ i → x.buf i = buf i := by
  intro x
  have hle : f.dlc.toNat ≤ 8 := hdlc
  have hnat : (f.dlc.setWidth 8).toNat = f.dlc.toNat := by
    simp
    omega
  have hdlc8 : (f.image old).dlc &&& 0x0F#8 ≤ 8#8 := by
    rw [image_dlc, BitVec.le_def, hnat]
    exact hle
  have hx : x = (f.image old).received buf := by
    simp only [x, rxRead_load n _ hdlc8]
  -- Identifier, length, payload, and what is behind the payload.
  refine ⟨?_, ?_, ?_, ?_⟩
  · rw [hx]
    exact decodeId_image f old
  · rw [hx]
    exact image_dlc f old
  · intro i hi
    have hi8 : i < 8 := lt_of_lt_of_le hi hle
    rw [hx]
    simp only [RxImage.received, image_dlc, hnat, if_pos hi, image_byte_data f old hi8]
    rw [Nat.add_comm 5 i]
    simp [RxImage.byte, hi8]
  · intro i hi
    rw [hx]
    simp only [RxImage.received, image_dlc, hnat, if_neg (Nat.not_lt.2 hi)]

/-- Of a stored data frame a read returns the data. -/
theorem rxRead_image_data (n : RxBuf) (f : CanFrame) (hdlc : f.dlc ≤ 8#4)
    (hrtr : f.remote = false) (old : RxImage) (r : Regs) (buf : Nat → Byte) :
    ((rxRead n buf).run BusAct.onRegs (r.load n (f.image old))).1.data = f.data := by
  have hle : f.dlc.toNat ≤ 8 := hdlc
  rcases rxRead_image n f hdlc old r buf with ⟨_, hlen, hdata, _⟩
  have hlength : f.data.length = f.dlc.toNat := by
    rw [f.data_length, hrtr]
    exact min_eq_left hle
  have hnat : (f.dlc.setWidth 8).toNat = f.dlc.toNat := by
    rw [BitVec.toNat_setWidth]
    omega
  rw [Received.data, hlen, hnat]
  apply List.ext_getElem
  · simp [hlength]
  · intro i hi hi'
    have hlt : i < f.dlc.toNat := by
      rw [← hlength]
      exact hi'
    simp [hdata i hlt, hi']

/-! ## Encoding a frame -/

section Encode

variable (canId : BitVec 32) (buf : Nat → Byte) (len : Byte) (r : Regs)

/-- The registers after `txBuffer0Send`. -/
def sentRegs : Regs :=
  ((txBuffer0Send canId buf len).run BusAct.onRegs r).2

theorem sentRegs_eq (a : Byte) :
    sentRegs canId buf len r a =
      if a = TXB0CTRL then 0x08#8
      else if (a - TXB0D0).toNat < len.toNat then buf (a - TXB0D0).toNat
      else if a = TXB0DLC then len
      else ((txBuffer0Id canId).run BusAct.onRegs r).2 a := by
  have hlen : 0 + len.toNat ≤ 256 := by
    have := len.isLt
    omega
  simp only [sentRegs, txBuffer0Send, Prog.run_bind]
  rw [writeData_run _ _ _ _ _ hlen]
  simp only [writeByte, Prog.run_act, Prog.run_ret, onRegs_writeByte, Regs.write,
    Function.update_apply, Nat.zero_le, true_and, Nat.zero_add]

/-- The identifier registers are those that `txBuffer0Id` leaves: the data loop stays clear of
them for payloads of at most eight bytes. -/
theorem sentRegs_ident (hlen : len ≤ 8#8) {a : Byte}
    (ha : a ∈ [TXB0SIDH, TXB0SIDL, TXB0EID8, TXB0EID0]) :
    sentRegs canId buf len r a = ((txBuffer0Id canId).run BusAct.onRegs r).2 a := by
  have hle : len.toNat ≤ 8 := hlen
  rw [sentRegs_eq]
  simp only [List.mem_cons, List.not_mem_nil, or_false] at ha
  rcases ha with rfl | rfl | rfl | rfl <;> simp <;> omega

theorem sentRegs_dlc (hlen : len ≤ 8#8) : sentRegs canId buf len r TXB0DLC = len := by
  have hle : len.toNat ≤ 8 := hlen
  rw [sentRegs_eq]
  simp
  omega

theorem sentRegs_data (hlen : len ≤ 8#8) {i : Nat} (hi : i < len.toNat) :
    sentRegs canId buf len r (TXB0D0 + BitVec.ofNat 8 i) = buf i := by
  have hle : len.toNat ≤ 8 := hlen
  have hoff : (TXB0D0 + BitVec.ofNat 8 i - TXB0D0).toNat = i :=
    add_ofNat_sub_toNat TXB0D0 (by omega)
  have hne : TXB0D0 + BitVec.ofNat 8 i ≠ TXB0CTRL := by
    intro h
    have hi250 : i = 250 := by
      rw [← hoff, h]
      rfl
    omega
  rw [sentRegs_eq, if_neg hne, hoff, if_pos hi]

/-- The identifier registers of an extended frame. -/
theorem txBuffer0Id_extended (h : 0x7FF#32 < canId) :
    let r' := ((txBuffer0Id canId).run BusAct.onRegs r).2
    r' TXB0SIDH = u8 (canId >>> 21 &&& 0xFF#32) ∧
      r' TXB0SIDL =
        u8 (0x08#32 ||| (canId >>> 16 &&& 0x3#32) ||| (canId >>> 18 &&& 0x07#32) <<< 5) ∧
      r' TXB0EID8 = u8 (canId >>> 8 &&& 0xFF#32) ∧ r' TXB0EID0 = u8 (canId &&& 0xFF#32) := by
  simp [txBuffer0Id, h, writeByte]

/-- The identifier registers of a standard frame; `EID8` and `EID0` keep their content. -/
theorem txBuffer0Id_standard (h : ¬ 0x7FF#32 < canId) :
    let r' := ((txBuffer0Id canId).run BusAct.onRegs r).2
    r' TXB0SIDH = u8 (canId >>> 3 &&& 0xFF#32) ∧ r' TXB0SIDL = u8 ((canId &&& 0x07#32) <<< 5) := by
  simp [txBuffer0Id, h, writeByte]

/-- The data frame that a call of `txBuffer0Send` asks for. -/
def CanFrame.ofCall : CanFrame where
  extended := decide (0x7FF#32 < canId)
  ident := canId.setWidth 29
  remote := false
  dlc := len.setWidth 4
  data := (List.range (min (len.setWidth 4).toNat 8)).map buf
  ident_le := by
    intro h
    have hle : canId.toNat ≤ 0x7FF := by
      simpa [BitVec.lt_def] using h
    simp only [BitVec.le_def, BitVec.toNat_setWidth]
    exact le_trans (Nat.mod_le _ _) hle
  data_length := by
    simp

theorem CanFrame.ofCall_dlc (hlen : len ≤ 8#8) :
    (CanFrame.ofCall canId buf len).dlc.toNat = len.toNat := by
  have hle : len.toNat ≤ 8 := hlen
  simp only [CanFrame.ofCall, BitVec.toNat_setWidth]
  omega

theorem CanFrame.ofCall_data (hlen : len ≤ 8#8) :
    (CanFrame.ofCall canId buf len).data = (List.range len.toNat).map buf := by
  have hle : len.toNat ≤ 8 := hlen
  have hmin : min (len.setWidth 4).toNat 8 = len.toNat := by
    rw [BitVec.toNat_setWidth]
    omega
  simp only [CanFrame.ofCall, hmin]

theorem identExtended_sent :
    identExtended (u8 (canId >>> 21 &&& 0xFF#32))
      (u8 (0x08#32 ||| (canId >>> 16 &&& 0x3#32) ||| (canId >>> 18 &&& 0x07#32) <<< 5))
      (u8 (canId >>> 8 &&& 0xFF#32)) (u8 (canId &&& 0xFF#32)) = canId.setWidth 29 := by
  apply BitVec.eq_of_getLsbD_eq
  intro i hi
  simp only [identExtended, BitVec.getLsbD_append]
  interval_cases i <;> simp

theorem identStandard_sent (h : ¬ 0x7FF#32 < canId) :
    (identStandard (u8 (canId >>> 3 &&& 0xFF#32)) (u8 ((canId &&& 0x07#32) <<< 5))).setWidth 29 =
      canId.setWidth 29 := by
  have hlt : canId.toNat < 2 ^ 11 := by
    rw [BitVec.lt_def, Nat.not_lt] at h
    exact Nat.lt_succ_of_le h
  have hhigh : ∀ (i : Nat) (hi : i < 32), 11 ≤ i → canId[i] = false := by
    intro i hi h11
    rw [← BitVec.getLsbD_eq_getElem]
    exact getLsbD_of_toNat_lt hlt h11
  apply BitVec.eq_of_getLsbD_eq
  intro i hi
  simp only [BitVec.getLsbD_setWidth, identStandard, BitVec.getLsbD_append]
  interval_cases i <;> simp [hhigh]

/-- TXB0 describes the intended frame, whatever the registers held before. -/
theorem txFrame_sentRegs (hlen : len ≤ 8#8) :
    txFrame (sentRegs canId buf len r) = CanFrame.ofCall canId buf len := by
  have hle : len.toNat ≤ 8 := hlen
  have hsidl := sentRegs_ident canId buf len r hlen (a := TXB0SIDL) (by simp)
  have hsidh := sentRegs_ident canId buf len r hlen (a := TXB0SIDH) (by simp)
  have heid8 := sentRegs_ident canId buf len r hlen (a := TXB0EID8) (by simp)
  have heid0 := sentRegs_ident canId buf len r hlen (a := TXB0EID0) (by simp)
  have hdlc := sentRegs_dlc canId buf len r hlen
  -- A CAN length leaves the bit clear that would make this a remote frame.
  have hrtr : len.getLsbD 6 = false :=
    getLsbD_of_toNat_lt (k := 6) (by omega) le_rfl
  have hnat : (len.setWidth 4).toNat = len.toNat := by
    simp
    omega
  have hide : (sentRegs canId buf len r TXB0SIDL).getLsbD 3 = decide (0x7FF#32 < canId) := by
    by_cases h : 0x7FF#32 < canId
    · rw [hsidl, (txBuffer0Id_extended canId r h).2.1]
      simp [h]
    · rw [hsidl, (txBuffer0Id_standard canId r h).2]
      simp [h]
  apply CanFrame.ext'
  · exact hide
  · by_cases h : 0x7FF#32 < canId
    · have hr := txBuffer0Id_extended canId r h
      simp only [txFrame, CanFrame.ofCall, hide, h, decide_true, if_true]
      rw [hsidh, hsidl, heid8, heid0, hr.1, hr.2.1, hr.2.2.1, hr.2.2.2, identExtended_sent]
    · have hr := txBuffer0Id_standard canId r h
      simp only [txFrame, CanFrame.ofCall, hide, h, decide_false, Bool.false_eq_true, if_false]
      rw [hsidh, hsidl, hr.1, hr.2, identStandard_sent canId h]
  · simp only [txFrame, CanFrame.ofCall, hdlc, hrtr]
  · simp only [txFrame, CanFrame.ofCall, hdlc]
  · simp only [txFrame, CanFrame.ofCall, hdlc, hrtr, Bool.false_eq_true, if_false]
    refine List.map_congr_left fun i hi => ?_
    have hlt : i < len.toNat := by
      rw [List.mem_range, hnat] at hi
      omega
    exact sentRegs_data canId buf len r hlen hlt

end Encode

/-! ## Round trip -/

/-- A frame sent from TXB0 and stored in a receive buffer is read back unchanged, and the read
stores nothing behind the payload. -/
theorem codec_roundTrip (n : RxBuf) (canId : BitVec 32) (buf : Nat → Byte) (len : Byte)
    (hId : canId < 0x20000000#32) (hLen : len ≤ 8#8) (r r' : Regs) (old : RxImage)
    (buf' : Nat → Byte) :
    let sent := txFrame (sentRegs canId buf len r)
    let x := ((rxRead n buf').run BusAct.onRegs (r'.load n (sent.image old))).1
    x.canId = canId ∧ x.len = len ∧ (∀ i, i < len.toNat → x.buf i = buf i) ∧
      ∀ i, len.toNat ≤ i → x.buf i = buf' i := by
  intro sent x
  have hle : len.toNat ≤ 8 := hLen
  have hsent : sent = CanFrame.ofCall canId buf len := txFrame_sentRegs canId buf len r hLen
  have hnat : sent.dlc.toNat = len.toNat := by
    rw [hsent, CanFrame.ofCall_dlc canId buf len hLen]
  have hdlc : sent.dlc ≤ 8#4 := by
    rw [BitVec.le_def, hnat]
    exact hle
  rcases rxRead_image n sent hdlc old r' buf' with ⟨hcanId, hlen, hdata, hrest⟩
  refine ⟨?_, ?_, ?_, ?_⟩
  · have hlt : canId.toNat < 2 ^ 29 := hId
    -- An identifier of 29 bits is not cut off.
    rw [hcanId, hsent]
    apply BitVec.eq_of_toNat_eq
    simp [CanFrame.ofCall]
    omega
  · rw [hlen]
    apply BitVec.eq_of_toNat_eq
    rw [BitVec.toNat_setWidth, hnat]
    omega
  · intro i hi
    rw [hdata i (by omega), hsent, CanFrame.ofCall_data canId buf len hLen]
    simp [hi]
  · intro i hi
    exact hrest i (by omega)

theorem codec_roundTrip_b1 :
    let sent := txFrame (sentRegs 0x12345#32 (fun i => BitVec.ofNat 8 (7 * i)) 3#8 fun _ => 0xFF#8)
    let img := sent.image ⟨0xAA#8, 0xAA#8, 0xAA#8, 0xAA#8, 0xAA#8, fun _ => 0xAA#8⟩
    let x := ((rxRead .b1 fun _ => 0x55#8).run BusAct.onRegs
      (Regs.load (fun _ => 0xFF#8) .b1 img)).1
    x.canId = 0x12345#32 ∧ x.len = 3#8 ∧
      (∀ i, i < (3#8).toNat → x.buf i = BitVec.ofNat 8 (7 * i)) ∧
      ∀ i, (3#8).toNat ≤ i → x.buf i = 0x55#8 :=
  codec_roundTrip .b1 0x12345#32 (fun i => BitVec.ofNat 8 (7 * i)) 3#8 (by decide) (by decide)
    (fun _ => 0xFF#8) (fun _ => 0xFF#8) ⟨0xAA#8, 0xAA#8, 0xAA#8, 0xAA#8, 0xAA#8, fun _ => 0xAA#8⟩
    (fun _ => 0x55#8)

/-! ## What a reader can tell apart -/

section Distinguish

/-- The two reads tell all frames apart, hand out only bytes that the frame carried, and their
result, sent on, is the same frame again. -/
def LosesNoDistinction : Prop :=
  ∀ (n : RxBuf) (f g : CanFrame), f.dlc ≤ 8#4 → g.dlc ≤ 8#4 →
    ∀ (old old' : RxImage) (r r' : Regs) (buf buf' : Nat → Byte),
      let x := ((rxRead n buf).run BusAct.onRegs (r.load n (f.image old))).1
      let y := ((rxRead n buf').run BusAct.onRegs (r'.load n (g.image old'))).1
      (x.canId = y.canId → x.len = y.len → x.data = y.data → f = g) ∧
        (∀ b ∈ x.data, b ∈ f.data) ∧
        ∀ t : Regs, txFrame (sentRegs x.canId x.buf x.len t) = f

/-- The standard and the extended frame with identifier 5 and no data read alike. -/
theorem not_losesNoDistinction : ¬ LosesNoDistinction := by
  intro h
  let f : CanFrame := ⟨false, 5#29, false, 0#4, [], by decide, rfl⟩
  let g : CanFrame := ⟨true, 5#29, false, 0#4, [], by decide, rfl⟩
  let old : RxImage := ⟨0#8, 0#8, 0#8, 0#8, 0#8, fun _ => 0#8⟩
  have hfg := (h .b0 f g (by decide) (by decide) old old (fun _ => 0#8) (fun _ => 0#8)
    (fun _ => 0#8) (fun _ => 0#8)).1 (by decide) (by decide) (by decide)
  exact absurd (congrArg CanFrame.extended hfg) (by decide)

/-- A read determines identifier and length code, and with the kind and the remote-request bit the
whole frame.  Of a data frame it returns the data; sent on, it reproduces the frame exactly when
this is a data frame of the kind that `txBuffer0Send` infers from the identifier. -/
theorem rxRead_determines (n : RxBuf) (f g : CanFrame) (hf : f.dlc ≤ 8#4) (hg : g.dlc ≤ 8#4)
    (old old' : RxImage) (r r' : Regs) (buf buf' : Nat → Byte) :
    let x := ((rxRead n buf).run BusAct.onRegs (r.load n (f.image old))).1
    let y := ((rxRead n buf').run BusAct.onRegs (r'.load n (g.image old'))).1
    (x.canId = y.canId → x.len = y.len → x.data = y.data →
      f.ident = g.ident ∧ f.dlc = g.dlc ∧
        (f.extended = g.extended → f.remote = g.remote → f = g)) ∧
      (f.remote = false → x.data = f.data) ∧
      ∀ t : Regs, txFrame (sentRegs x.canId x.buf x.len t) = f ↔
        f.remote = false ∧ (f.extended = true ↔ 0x7FF#29 < f.ident) := by
  intro x y
  have hxId : x.canId = f.ident.setWidth 32 := (rxRead_image n f hf old r buf).1
  have hxLen : x.len = f.dlc.setWidth 8 := (rxRead_image n f hf old r buf).2.1
  have hyId : y.canId = g.ident.setWidth 32 := (rxRead_image n g hg old' r' buf').1
  have hyLen : y.len = g.dlc.setWidth 8 := (rxRead_image n g hg old' r' buf').2.1
  have hxData : f.remote = false → x.data = f.data := fun h => rxRead_image_data n f hf h old r buf
  have hyData : g.remote = false → y.data = g.data :=
    fun h => rxRead_image_data n g hg h old' r' buf'
  refine ⟨?_, hxData, ?_⟩
  · intro hId hLen hData
    have hident : f.ident = g.ident := by
      have heq : f.ident.setWidth 32 = g.ident.setWidth 32 := by
        calc
          f.ident.setWidth 32 = x.canId := hxId.symm
          _ = y.canId := hId
          _ = g.ident.setWidth 32 := hyId
      apply BitVec.eq_of_toNat_eq
      have hnat := congrArg BitVec.toNat heq
      simp only [BitVec.toNat_setWidth] at hnat
      omega
    have hdlc : f.dlc = g.dlc := by
      have heq : f.dlc.setWidth 8 = g.dlc.setWidth 8 := by
        calc
          f.dlc.setWidth 8 = x.len := hxLen.symm
          _ = y.len := hLen
          _ = g.dlc.setWidth 8 := hyLen
      apply BitVec.eq_of_toNat_eq
      have hnat := congrArg BitVec.toNat heq
      simp only [BitVec.toNat_setWidth] at hnat
      omega
    refine ⟨hident, hdlc, fun hext hrtr => CanFrame.ext' hext hident hrtr hdlc ?_⟩
    cases hremote : f.remote with
    | true =>
        -- Remote frames carry no data; the bytes that were compared are residue.
        have hfnil : f.data = [] := List.eq_nil_of_length_eq_zero (by simp [f.data_length, hremote])
        have hgnil : g.data = [] :=
          List.eq_nil_of_length_eq_zero (by simp [g.data_length, ← hrtr, hremote])
        rw [hfnil, hgnil]
    | false =>
        rw [← hxData hremote, ← hyData (hrtr ▸ hremote), hData]
  · intro t
    have hle : f.dlc.toNat ≤ 8 := hf
    have hlen8 : x.len ≤ 8#8 := by
      rw [hxLen, BitVec.le_def, BitVec.toNat_setWidth]
      simp
      omega
    have hkind : (0x7FF#32 < x.canId) ↔ 0x7FF#29 < f.ident := by
      rw [hxId]
      simp only [BitVec.lt_def, BitVec.toNat_setWidth, BitVec.toNat_ofNat]
      omega
    rw [txFrame_sentRegs x.canId x.buf x.len t hlen8]
    constructor
    · intro hsame
      have hrtr := congrArg CanFrame.remote hsame
      have hext := congrArg CanFrame.extended hsame
      refine ⟨hrtr.symm, ?_⟩
      rw [← hext, ← hkind]
      simp [CanFrame.ofCall]
    · rintro ⟨hrtr, hext⟩
      apply CanFrame.ext'
      · rw [Bool.eq_iff_iff, hext, ← hkind]
        simp [CanFrame.ofCall]
      · apply BitVec.eq_of_toNat_eq
        simp only [CanFrame.ofCall, hxId, BitVec.toNat_setWidth]
        omega
      · exact hrtr.symm
      · apply BitVec.eq_of_toNat_eq
        simp only [CanFrame.ofCall, hxLen, BitVec.toNat_setWidth]
        omega
      · rw [CanFrame.ofCall_data x.canId x.buf x.len hlen8]
        exact hxData hrtr

theorem rxRead_determines_standard :
    let f : CanFrame := ⟨false, 5#29, false, 2#4, [0x11#8, 0x22#8], by decide, rfl⟩
    let old : RxImage := ⟨0xAA#8, 0xAA#8, 0xAA#8, 0xAA#8, 0xAA#8, fun _ => 0xAA#8⟩
    let r : Regs := fun _ => 0xFF#8
    let buf : Nat → Byte := fun _ => 0#8
    let x := ((rxRead .b0 buf).run BusAct.onRegs (r.load .b0 (f.image old))).1
    txFrame (sentRegs x.canId x.buf x.len r) = f := by
  intro f old r buf x
  have hdlc : f.dlc ≤ 8#4 := by decide
  have hkind : f.extended = true ↔ 0x7FF#29 < f.ident := by decide
  exact ((rxRead_determines .b0 f f hdlc hdlc old old r r buf buf).2.2 r).2 ⟨rfl, hkind⟩

end Distinguish

end Mcp2515
end PicoCppSdk
