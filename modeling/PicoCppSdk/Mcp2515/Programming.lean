import PicoCppSdk.Mcp2515.Access
import PicoCppSdk.Mcp2515.Chip
import PicoCppSdk.Mcp2515.Filter

/-!
# Programming — `setFilter` and `setMask` against the controller's modes

Filters and masks are locked outside configuration mode, and the controller enters this mode only
when no transmission is pending.  The driver requests the mode, writes, and requests normal mode
again without looking whether the first request was granted.  Meanwhile the controller goes on by
itself: between two transactions transmissions finish, and a mode asked for earlier is entered.
-/

namespace PicoCppSdk
namespace Mcp2515

open Atomic

/-! ## What the controller does by itself -/

/-- `TXB0CTRL`, `TXB1CTRL` or `TXB2CTRL`. -/
def TxCtrl (a : Byte) : Prop :=
  a = TXB0CTRL ∨ a = TXB1CTRL ∨ a = TXB2CTRL

/-- A register of one of the three transmit buffers. -/
def TxRegister (a : Byte) : Prop :=
  (a - TXB0CTRL).toNat < 14 ∨ (a - TXB1CTRL).toNat < 14 ∨ (a - TXB2CTRL).toNat < 14

/-- The registers that hold what the driver set: filters, masks and bit timing, the control
registers of the receive buffers, the transmit buffers, and the requested mode. -/
def Setting (a : Byte) : Prop :=
  ConfigOnly a ∨ a = RXB0CTRL ∨ a = RXB1CTRL ∨ TxRegister a ∨ a = CANCTRL

instance (a : Byte) : Decidable (TxCtrl a) :=
  inferInstanceAs (Decidable (_ ∨ _))

instance (a : Byte) : Decidable (TxRegister a) :=
  inferInstanceAs (Decidable (_ ∨ _))

instance (a : Byte) : Decidable (Setting a) :=
  inferInstanceAs (Decidable (_ ∨ _))

/-- The priority of a transmit buffer. -/
@[simp] def TXP : Byte := 0x03

/-- A setting is as it was, but for the request and the status of a transmission that was pending:
those the controller changes as the transmission goes on. -/
def Kept (r r' : Regs) (a : Byte) : Prop :=
  r' a = r a ∨ (TxCtrl a ∧ r a &&& TXREQ ≠ 0#8 ∧ r' a &&& TXP = r a &&& TXP)

namespace Kept

theorem refl (r : Regs) (a : Byte) : Kept r r a :=
  Or.inl rfl

theorem trans {r r' r'' : Regs} {a : Byte} (h : Kept r r' a) (h' : Kept r' r'' a) :
    Kept r r'' a := by
  rcases h with heq | ⟨hctrl, hreq, htxp⟩
  · rcases h' with heq' | ⟨hctrl, hreq, htxp⟩
    · exact Or.inl (heq'.trans heq)
    · rw [heq] at hreq htxp
      exact Or.inr ⟨hctrl, hreq, htxp⟩
  · rcases h' with heq' | ⟨-, -, htxp'⟩
    · rw [← heq'] at htxp
      exact Or.inr ⟨hctrl, hreq, htxp⟩
    · exact Or.inr ⟨hctrl, hreq, htxp'.trans htxp⟩

theorem eq_of_not_txCtrl {r r' : Regs} {a : Byte} (h : Kept r r' a) (ha : ¬ TxCtrl a) :
    r' a = r a := by
  rcases h with heq | ⟨hctrl, -⟩
  · exact heq
  · exact absurd hctrl ha

end Kept

namespace Chip

/-- Time passes between two transactions: transmissions finish, registers that are not settings
change at will, and a configuration mode that was requested may be entered once no transmission is
pending. -/
structure Elapse (c c' : Chip) : Prop where
  kept : ∀ a, Setting a → Kept c.regs c'.regs a
  mode : c'.mode = c.mode ∨
    (Mode.requested (c.regs CANCTRL) = some .configuration ∧ ¬ c'.Transmitting ∧
      c'.mode = .configuration)
  phase : c'.phase = c.phase

theorem Elapse.refl (c : Chip) : c.Elapse c where
  kept a _ := Kept.refl c.regs a
  mode := Or.inl rfl
  phase := rfl

/-- Time passes, then the transaction takes place. -/
def Outcome (por : Reset) (z : Byte) (a : BusAct) (c : Chip) (x : a.Ans) (u : Chip) : Prop :=
  ∃ c', c.Elapse c' ∧ x = ((slave por z).act a c').1 ∧ u = ((slave por z).act a c').2

end Chip

/-! ## What a call should achieve -/

/-- The register at offset `k` of a block that holds `id`: the identifier bits from the top down,
with `EXIDE` for an extended identifier. -/
def encoding (id : BitVec 32) (extended : Bool) : Nat → Byte
  | 0 => if extended then id.extractLsb' 21 8 else id.extractLsb' 3 8
  | 1 =>
      if extended then packSidl (id.extractLsb' 18 3) 0#1 1#1 0#1 (id.extractLsb' 16 2)
      else packSidl (id.extractLsb' 0 3) 0#1 0#1 0#1 0#2
  | 2 => if extended then id.extractLsb' 8 8 else 0#8
  | _ => if extended then id.extractLsb' 0 8 else 0#8

/-- The block holds `id`. -/
def Encoded (b : AccBlock) (id : BitVec 32) (extended : Bool) (r : Regs) : Prop :=
  ∀ k, k < 4 → b.byte r k = encoding id extended k

/-- From `r` to `t` the block was programmed with `id`, and nothing else was. -/
structure Programmed (b : AccBlock) (id : BitVec 32) (extended : Bool) (r t : Regs) : Prop where
  block : Encoded b id extended t
  rxm : t b.rxbCtrl &&& RXM = 0#8
  bukt : t b.rxbCtrl &&& BUKT_ROLLOVER = r b.rxbCtrl &&& BUKT_ROLLOVER
  normal : Mode.requested (t CANCTRL) = some .normal
  others : ∀ a, Setting a → a ≠ CANCTRL → a ≠ b.rxbCtrl → ¬ (a - b.base).toNat < 4 → Kept r t a

namespace FilterCall

/-- What the call should do to the chip: program the block it addresses, or nothing at all. -/
def Achieves (call : FilterCall) (c t : Chip) : Prop :=
  match call.target with
  | some b => Programmed b call.value.1 call.value.2 c.regs t.regs
  | none => t = c

end FilterCall

/-- The driver writes the layout. -/
theorem accByte_eq_encoding (id : BitVec 32) (extended : Bool) (k : Nat) :
    accByte id extended k = encoding id extended k := by
  apply BitVec.eq_of_getLsbD_eq
  intro i hi
  rcases k with _ | _ | _ | k <;> cases extended <;> interval_cases i <;>
    simp [accByte, encoding, getElem_packSidl]

/-! ## One transaction -/

/-- The transaction stores into the register `a`. -/
def Writes : BusAct → Byte → Prop
  | .writeByte addr _, a => a = addr
  | .bitModify addr _ _, a => a = addr
  | _, _ => False

theorem AccBlock.configOnly (b : AccBlock) {k : Nat} (hk : k < 4) :
    ConfigOnly (b.base + BitVec.ofNat 8 k) := by
  interval_cases k <;> rcases b with i | i <;> revert i <;> decide

theorem AccBlock.configOnly_of_lt (b : AccBlock) {a : Byte} (h : (a - b.base).toNat < 4) :
    ConfigOnly a := by
  rw [(eq_add_ofNat_iff (a := a) (b := b.base) (k := (a - b.base).toNat) (by omega)).2 rfl]
  exact b.configOnly h

theorem AccBlock.rxbCtrl_cases (b : AccBlock) : b.rxbCtrl = RXB0CTRL ∨ b.rxbCtrl = RXB1CTRL := by
  cases b with
  | filter i =>
      by_cases h : i < 2
      · exact Or.inl (if_pos h)
      · exact Or.inr (if_neg h)
  | mask i =>
      by_cases h : i = 0
      · exact Or.inl (if_pos h)
      · exact Or.inr (if_neg h)

theorem not_txCtrl_of_configOnly {a : Byte} (h : ConfigOnly a) : ¬ TxCtrl a := by
  rintro (rfl | rfl | rfl) <;> exact absurd h (by decide)

theorem not_txCtrl_rxbCtrl (b : AccBlock) : ¬ TxCtrl b.rxbCtrl := by
  rcases b.rxbCtrl_cases with h | h <;> (rw [h]; decide)

theorem setting_rxbCtrl (b : AccBlock) : Setting b.rxbCtrl := by
  rcases b.rxbCtrl_cases with h | h <;> (rw [h]; decide)

theorem setting_of_txCtrl {a : Byte} (h : TxCtrl a) : Setting a := by
  rcases h with rfl | rfl | rfl <;> decide

namespace Chip

theorem transmitting_iff (c : Chip) :
    c.Transmitting ↔ ∃ a, TxCtrl a ∧ c.regs a &&& TXREQ ≠ 0#8 := by
  constructor
  · rintro (h | h | h)
    · exact ⟨_, Or.inl rfl, h⟩
    · exact ⟨_, Or.inr (Or.inl rfl), h⟩
    · exact ⟨_, Or.inr (Or.inr rfl), h⟩
  · rintro ⟨a, rfl | rfl | rfl, h⟩
    · exact Or.inl h
    · exact Or.inr (Or.inl h)
    · exact Or.inr (Or.inr h)

/-- Chips that agree on the three control registers transmit alike. -/
theorem transmitting_congr {c c' : Chip} (h : ∀ a, TxCtrl a → c'.regs a = c.regs a) :
    c'.Transmitting ↔ c.Transmitting := by
  rw [transmitting_iff, transmitting_iff]
  refine exists_congr fun a => and_congr_right fun ha => ?_
  rw [h a ha]

section Write

variable {c : Chip} {addr data : Byte}

theorem write_regs_of_ne {a : Byte} (ha : a ≠ addr) :
    (c.write addr data).regs a = c.regs a := by
  by_cases hlocked : ConfigOnly addr ∧ c.mode ≠ .configuration
  · rw [write, if_pos hlocked]
  · rw [write, if_neg hlocked]
    exact Regs.write_of_ne ha c.regs data

/-- A locked register keeps its content, any other takes the data. -/
theorem write_regs_self :
    (c.write addr data).regs addr = data ∨ (c.write addr data).regs addr = c.regs addr := by
  by_cases hlocked : ConfigOnly addr ∧ c.mode ≠ .configuration
  · rw [write, if_pos hlocked]
    exact Or.inr rfl
  · rw [write, if_neg hlocked]
    exact Or.inl (Regs.write_self c.regs addr data)

theorem write_regs_of_configuration (h : c.mode = .configuration) :
    (c.write addr data).regs = c.regs.write addr data := by
  rw [write, if_neg fun hlocked => hlocked.2 h]

theorem write_mode_of_ne (h : addr ≠ CANCTRL) : (c.write addr data).mode = c.mode := by
  by_cases hlocked : ConfigOnly addr ∧ c.mode ≠ .configuration
  · rw [write, if_pos hlocked]
  · rw [write, if_neg hlocked]
    exact if_neg h

theorem write_canctrl_mode : (c.write CANCTRL data).mode = c.modeAfter data := by
  have hopen : ¬ (ConfigOnly CANCTRL ∧ c.mode ≠ .configuration) := by
    rintro ⟨h, -⟩
    exact absurd h (by decide)
  simp only [write, if_neg hopen, if_true]

theorem write_transmitting (h : ¬ TxCtrl addr) :
    (c.write addr data).Transmitting ↔ c.Transmitting := by
  refine transmitting_congr fun a ha => write_regs_of_ne ?_
  rintro rfl
  exact h ha

/-- While a transmission is pending no write leads into configuration mode. -/
theorem write_mode_of_transmitting (hbusy : c.Transmitting) (hmode : c.mode ≠ .configuration) :
    (c.write addr data).mode ≠ .configuration := by
  by_cases haddr : addr = CANCTRL
  · subst haddr
    rw [write_canctrl_mode, modeAfter]
    cases hreq : Mode.requested data with
    | none => exact hmode
    | some m =>
        cases m with
        | configuration =>
            simpa [hbusy] using hmode
        | _ => simp
  · rw [write_mode_of_ne haddr]
    exact hmode

end Write

/-! ## One outcome -/

section Outcome

variable {por : Reset} {z : Byte} {a : BusAct} {c c' u : Chip} {x : a.Ans}

theorem act_regs_of_not_writes {b : Byte} (h : ¬ Writes a b) :
    ((slave por z).act a c).2.regs b = c.regs b := by
  cases a with
  | writeByte addr data =>
      rw [act_writeByte]
      exact write_regs_of_ne h
  | bitModify addr mask data =>
      rw [act_bitModify]
      exact write_regs_of_ne h
  | _ => rfl

theorem Elapse.eq_of_setting (h : c.Elapse c') {b : Byte} (hb : Setting b) (htx : ¬ TxCtrl b) :
    c'.regs b = c.regs b :=
  (h.kept b hb).eq_of_not_txCtrl htx

/-- A controller with nothing to send stays so. -/
theorem Elapse.not_transmitting (h : c.Elapse c') (hquiet : ¬ c.Transmitting) :
    ¬ c'.Transmitting := by
  rwa [transmitting_congr (c := c)]
  intro b hb
  rcases h.kept b (setting_of_txCtrl hb) with heq | ⟨-, hreq, -⟩
  · exact heq
  · exact absurd (c.transmitting_iff.2 ⟨b, hb, hreq⟩) hquiet

theorem Elapse.configuration (h : c.Elapse c') (hmode : c.mode = .configuration) :
    c'.mode = .configuration := by
  rcases h.mode with heq | ⟨-, -, heq⟩
  · exact heq.trans hmode
  · exact heq

/-- A setting that the transaction does not store into is kept. -/
theorem Outcome.kept (h : Outcome por z a c x u) {b : Byte} (hb : Setting b) (hw : ¬ Writes a b) :
    Kept c.regs u.regs b := by
  rcases h with ⟨c', helapse, -, rfl⟩
  have hsame : ((slave por z).act a c').2.regs b = c'.regs b := act_regs_of_not_writes hw
  exact (helapse.kept b hb).trans (Or.inl hsame)

theorem Outcome.writeByte {addr data : Byte} {x : Unit}
    (h : Outcome por z (.writeByte addr data) c x u) :
    ∃ c', c.Elapse c' ∧ u.regs = (c'.write addr data).regs ∧
      u.mode = (c'.write addr data).mode := by
  rcases h with ⟨c', helapse, -, rfl⟩
  rw [act_writeByte]
  exact ⟨c', helapse, rfl, rfl⟩

theorem Outcome.readByte {addr x : Byte} (h : Outcome por z (.readByte addr) c x u)
    (ha : Setting addr) (htx : ¬ TxCtrl addr) : x = c.regs addr := by
  rcases h with ⟨c', helapse, rfl, -⟩
  exact helapse.eq_of_setting ha htx

/-- A method that stores into registers of `S` only keeps the other settings. -/
theorem kept_of_eval {α : Type} {p : Driver α} {y : α} {t : Chip} {S : Byte → Prop} {b : Byte}
    (hp : p.Every fun a => ∀ addr, Writes a addr → S addr) (hb : Setting b) (hS : ¬ S b)
    (h : p.Eval (Outcome por z) c y t) : Kept c.regs t.regs b := by
  refine hp.eval_invariant (I := fun u => Kept c.regs u.regs b) ?_ h (Kept.refl _ _)
  intro a s r u hw hout hkept
  exact hkept.trans (hout.kept hb fun hwrites => hS (hw b hwrites))

end Outcome

end Chip

/-! ## The three parts of a call -/

/-- The bus is taken and configuration mode requested. -/
def requestConfig : Driver Unit := do
  lock
  writeByte CANCTRL REQOP_CONFIG

/-- Normal mode is requested, the buffer told to use its filters, and the bus released. -/
def backToNormal (rxbCtrl : Byte) : Driver Unit := do
  writeByte CANCTRL (REQOP_NORMAL ||| CLKOUT_ENABLED)
  let ctrl ← readByte rxbCtrl
  writeByte rxbCtrl (ctrl &&& ~~~RXM)
  unlock

/-- The four writes of `writeFilterOrMask`. -/
def accWrites (sidh : Byte) (id : BitVec 32) (extended : Bool) : List (Byte × Byte) :=
  (List.range 4).map fun k => (sidh + BitVec.ofNat 8 k, encoding id extended k)

theorem programFilterOrMask_eq (sidh rxbCtrl : Byte) (id : BitVec 32) (extended : Bool) :
    programFilterOrMask sidh rxbCtrl id extended =
      (requestConfig >>= fun _ => writeFilterOrMask sidh id extended >>= fun _ =>
        backToNormal rxbCtrl) := rfl

theorem writeFilterOrMask_eq (sidh : Byte) (id : BitVec 32) (extended : Bool) :
    writeFilterOrMask sidh id extended = ofWrites (accWrites sidh id extended) := by
  have hzero : sidh + BitVec.ofNat 8 0 = sidh := BitVec.add_zero sidh
  simp only [accWrites, ← accByte_eq_encoding, List.range, List.range.loop, List.map_cons,
    List.map_nil, hzero]
  cases extended <;> rfl

theorem every_ofWrites {P : BusAct → Prop} {ws : List (Byte × Byte)}
    (h : ∀ w ∈ ws, P (.writeByte w.1 w.2)) : (ofWrites ws).Every P := by
  induction ws with
  | nil => trivial
  | cons w ws ih =>
      exact ⟨h w List.mem_cons_self, fun _ => ih fun v hv => h v (List.mem_cons_of_mem _ hv)⟩

section Parts

variable {por : Reset} {z : Byte} {b : AccBlock} {id : BitVec 32} {extended : Bool}

theorem mem_accWrites {sidh : Byte} {w : Byte × Byte} :
    w ∈ accWrites sidh id extended ↔
      ∃ k, k < 4 ∧ w = (sidh + BitVec.ofNat 8 k, encoding id extended k) := by
  simp only [accWrites, List.mem_map, List.mem_range, eq_comm]

/-- The parts by the registers they store into. -/
theorem requestConfig_every :
    requestConfig.Every fun a => ∀ addr, Writes a addr → addr = CANCTRL :=
  ⟨fun _ h => h.elim, fun _ => ⟨fun _ h => h, fun _ => trivial⟩⟩

theorem writeFilterOrMask_every (sidh : Byte) :
    (writeFilterOrMask sidh id extended).Every
      fun a => ∀ addr, Writes a addr → (addr - sidh).toNat < 4 := by
  rw [writeFilterOrMask_eq]
  refine every_ofWrites fun w hw => ?_
  rcases mem_accWrites.1 hw with ⟨k, hk, rfl⟩
  rintro _ rfl
  rw [add_ofNat_sub_toNat _ (by omega)]
  exact hk

theorem backToNormal_every (rxbCtrl : Byte) :
    (backToNormal rxbCtrl).Every fun a => ∀ addr, Writes a addr → addr = CANCTRL ∨ addr = rxbCtrl :=
  ⟨fun _ h => Or.inl h, fun _ => ⟨fun _ h => h.elim, fun _ => ⟨fun _ h => Or.inr h,
    fun _ => ⟨fun _ h => h.elim, fun _ => trivial⟩⟩⟩⟩

/-- With nothing to send, the requested mode is entered. -/
theorem requestConfig_configuration {c u : Chip} {x : Unit} (hquiet : ¬ c.Transmitting)
    (h : requestConfig.Eval (Chip.Outcome por z) c x u) :
    u.mode = .configuration ∧ ¬ u.Transmitting := by
  rcases h with ⟨_, c1, hlock, _, c2, hwrite, -, rfl⟩
  rcases hlock with ⟨c1', hlocking, -, rfl⟩
  rcases hwrite.writeByte with ⟨c', helapse, hregs, hmode⟩
  have hquiet' : ¬ c'.Transmitting := by
    exact helapse.not_transmitting (hlocking.not_transmitting hquiet)
  have hreq : Mode.requested REQOP_CONFIG = some .configuration := by decide
  constructor
  · rw [hmode, Chip.write_canctrl_mode, Chip.modeAfter, hreq]
    exact if_neg hquiet'
  · rw [Chip.transmitting_congr (c := c')]
    · exact hquiet'
    · intro a ha
      rw [hregs]
      apply Chip.write_regs_of_ne
      rintro rfl
      exact absurd ha (by decide)

/-- In configuration mode writes to locked registers take effect. -/
theorem ofWrites_configuration {ws : List (Byte × Byte)} (hws : ∀ w ∈ ws, ConfigOnly w.1) :
    ∀ {c t : Chip} {x : Unit}, c.mode = .configuration →
      (ofWrites ws).Eval (Chip.Outcome por z) c x t →
        ∀ a, ConfigOnly a → t.regs a = c.regs.writes ws a := by
  induction ws with
  | nil =>
      rintro c t x - ⟨-, rfl⟩ a -
      rfl
  | cons w ws ih =>
      rintro c t x hmode ⟨_, u, hout, hrest⟩ a ha
      rcases hout.writeByte with ⟨c', helapse, hregs, hmodeu⟩
      have hmode' : c'.mode = .configuration := helapse.configuration hmode
      have hw : ConfigOnly w.1 := hws w List.mem_cons_self
      have hne : w.1 ≠ CANCTRL := by
        intro heq
        rw [heq] at hw
        exact absurd hw (by decide)
      have hmode'' : u.mode = .configuration := by
        calc
          u.mode = (c'.write w.1 w.2).mode := hmodeu
          _ = c'.mode := Chip.write_mode_of_ne hne
          _ = .configuration := hmode'
      have hrun := ih (fun v hv => hws v (List.mem_cons_of_mem _ hv)) hmode'' hrest a ha
      refine hrun.trans ?_
      -- Time that passed before the write left the locked registers as they were.
      refine Regs.writes_agree (P := ConfigOnly) (fun a' ha' => ?_) ws a ha
      have hsame : c'.regs a' = c.regs a' :=
        helapse.eq_of_setting (Or.inl ha') (not_txCtrl_of_configOnly ha')
      rw [hregs, Chip.write_regs_of_configuration hmode']
      by_cases heq : a' = w.1
      · rw [heq, Regs.write_self, Regs.write_self]
      · rw [Regs.write_of_ne heq, Regs.write_of_ne heq, hsame]

theorem writeFilterOrMask_encoded {c t : Chip} {x : Unit} (hmode : c.mode = .configuration)
    (h : (writeFilterOrMask b.base id extended).Eval (Chip.Outcome por z) c x t) :
    Encoded b id extended t.regs := by
  intro k hk
  have hws : ∀ w ∈ accWrites b.base id extended, ConfigOnly w.1 := by
    intro w hw
    rcases mem_accWrites.1 hw with ⟨j, hj, rfl⟩
    exact b.configOnly hj
  have hflat := writeFilterOrMask_run b.base id extended c.regs (b.base + BitVec.ofNat 8 k)
  rw [add_ofNat_sub_toNat _ (by omega), if_pos hk, accByte_eq_encoding, writeFilterOrMask_eq,
    ofWrites_run] at hflat
  rw [writeFilterOrMask_eq] at h
  exact (ofWrites_configuration hws hmode h _ (b.configOnly hk)).trans hflat

/-- A block that holds the identifier already goes on holding it, whether or not the writes take
effect. -/
theorem writeFilterOrMask_of_encoded {c t : Chip} {x : Unit} (hold : Encoded b id extended c.regs)
    (h : (writeFilterOrMask b.base id extended).Eval (Chip.Outcome por z) c x t) :
    Encoded b id extended t.regs := by
  rw [writeFilterOrMask_eq] at h
  have hevery : (ofWrites (accWrites b.base id extended)).Every fun a =>
      ∃ k, k < 4 ∧ a = .writeByte (b.base + BitVec.ofNat 8 k) (encoding id extended k) := by
    refine every_ofWrites fun w hw => ?_
    rcases mem_accWrites.1 hw with ⟨k, hk, rfl⟩
    exact ⟨k, hk, rfl⟩
  -- Every write stores what is there already, so it makes no difference if it is ignored.
  refine hevery.eval_invariant (I := fun u => Encoded b id extended u.regs) ?_ h hold
  rintro _ s _ u ⟨k, hk, rfl⟩ hout hs j hj
  rcases hout.writeByte with ⟨s', helapse, hregs, -⟩
  have hs' : s'.regs (b.base + BitVec.ofNat 8 j) = encoding id extended j := by
    calc
      s'.regs (b.base + BitVec.ofNat 8 j) = s.regs (b.base + BitVec.ofNat 8 j) :=
        helapse.eq_of_setting (Or.inl (b.configOnly hj))
          (not_txCtrl_of_configOnly (b.configOnly hj))
      _ = encoding id extended j := hs j hj
  rw [AccBlock.byte, hregs]
  by_cases heq : b.base + BitVec.ofNat 8 j = b.base + BitVec.ofNat 8 k
  · have hjk : j = k := by
      have hoff := congrArg (fun a : Byte => (a - b.base).toNat) heq
      simpa only [add_ofNat_sub_toNat b.base (show j < 256 by omega),
        add_ofNat_sub_toNat b.base (show k < 256 by omega)] using hoff
    subst hjk
    have hwritten : (s'.write (b.base + BitVec.ofNat 8 j) (encoding id extended j)).regs
          (b.base + BitVec.ofNat 8 j) = encoding id extended j ∨
        (s'.write (b.base + BitVec.ofNat 8 j) (encoding id extended j)).regs
          (b.base + BitVec.ofNat 8 j) = s'.regs (b.base + BitVec.ofNat 8 j) :=
      Chip.write_regs_self
    rcases hwritten with hnew | hnew
    · exact hnew
    · exact hnew.trans hs'
  · exact (Chip.write_regs_of_ne heq).trans hs'

/-- What the end of a call leaves in the two registers it stores into. -/
theorem backToNormal_regs {c t : Chip} {x : Unit}
    (h : (backToNormal b.rxbCtrl).Eval (Chip.Outcome por z) c x t) :
    t.regs CANCTRL = REQOP_NORMAL ||| CLKOUT_ENABLED ∧
      t.regs b.rxbCtrl = c.regs b.rxbCtrl &&& ~~~RXM := by
  rcases b.rxbCtrl_outside with ⟨hne, hout⟩
  have hopen : ¬ ConfigOnly b.rxbCtrl := by
    rcases b.rxbCtrl_cases with heq | heq <;> (rw [heq]; decide)
  rcases h with ⟨_, c1, hnormal, ctrl, c2, hread, _, c3, hwrite, _, _, hunlock, -, rfl⟩
  -- The request for normal mode leaves the register as it is, so the old value is read.
  have hctrl : ctrl = c.regs b.rxbCtrl := by
    rw [hread.readByte (setting_rxbCtrl b) (not_txCtrl_rxbCtrl b)]
    exact (hnormal.kept (setting_rxbCtrl b) hne).eq_of_not_txCtrl (not_txCtrl_rxbCtrl b)
  constructor
  · rcases hnormal.writeByte with ⟨c', -, hregs, -⟩
    have hset : Setting CANCTRL := by decide
    have htx : ¬ TxCtrl CANCTRL := by decide
    calc
      t.regs CANCTRL = c3.regs CANCTRL :=
        (hunlock.kept hset fun h => h).eq_of_not_txCtrl htx
      _ = c2.regs CANCTRL := (hwrite.kept hset (Ne.symm hne)).eq_of_not_txCtrl htx
      _ = c1.regs CANCTRL := (hread.kept hset fun h => h).eq_of_not_txCtrl htx
      _ = (c'.write CANCTRL (REQOP_NORMAL ||| CLKOUT_ENABLED)).regs CANCTRL := by rw [hregs]
      _ = REQOP_NORMAL ||| CLKOUT_ENABLED := by
        rw [Chip.regs_write (by decide), Regs.write_self]
  · rcases hwrite.writeByte with ⟨c', -, hregs, -⟩
    calc
      t.regs b.rxbCtrl = c3.regs b.rxbCtrl :=
        (hunlock.kept (setting_rxbCtrl b) fun h => h).eq_of_not_txCtrl (not_txCtrl_rxbCtrl b)
      _ = (c'.write b.rxbCtrl (ctrl &&& ~~~RXM)).regs b.rxbCtrl := by rw [hregs]
      _ = c.regs b.rxbCtrl &&& ~~~RXM := by
        rw [Chip.regs_write hopen, Regs.write_self, hctrl]

end Parts

/-! ## A whole call -/

section Call

variable {por : Reset} {z : Byte} {b : AccBlock} {id : BitVec 32} {extended : Bool}

theorem AccBlock.byte_kept {r t : Regs} {k : Nat} (hk : k < 4)
    (h : Kept r t (b.base + BitVec.ofNat 8 k)) : b.byte t k = b.byte r k :=
  h.eq_of_not_txCtrl (not_txCtrl_of_configOnly (b.configOnly hk))

theorem Encoded.kept {r t : Regs} (h : Encoded b id extended r)
    (hkept : ∀ k, k < 4 → Kept r t (b.base + BitVec.ofNat 8 k)) : Encoded b id extended t := by
  intro k hk
  rw [AccBlock.byte_kept hk (hkept k hk)]
  exact h k hk

/-- A call that finds nothing to send, or the block programmed already, achieves what it should. -/
theorem programmed_of_eval {c t : Chip} {x : Unit}
    (hc : ¬ c.Transmitting ∨ Encoded b id extended c.regs)
    (h : (programFilterOrMask b.base b.rxbCtrl id extended).Eval (Chip.Outcome por z) c x t) :
    Programmed b id extended c.regs t.regs := by
  rw [programFilterOrMask_eq] at h
  rcases (Prog.eval_bind _ _ _ _ _).1 h with ⟨_, u, hconfig, hrest⟩
  rcases (Prog.eval_bind _ _ _ _ _).1 hrest with ⟨_, v, hblock, hnormal⟩
  rcases b.rxbCtrl_outside with ⟨hctrlne, hctrlout⟩
  -- What the first two parts leave of the registers that they do not store into.
  have hkept : ∀ a, Setting a → a ≠ CANCTRL → ¬ (a - b.base).toNat < 4 →
      Kept c.regs v.regs a := by
    intro a ha hcan hout
    exact (Chip.kept_of_eval requestConfig_every ha hcan hconfig).trans
      (Chip.kept_of_eval (writeFilterOrMask_every b.base) ha hout hblock)
  have hencoded : Encoded b id extended v.regs := by
    rcases hc with hquiet | hold
    · exact writeFilterOrMask_encoded (requestConfig_configuration hquiet hconfig).1 hblock
    · refine writeFilterOrMask_of_encoded (hold.kept fun k hk => ?_) hblock
      exact Chip.kept_of_eval requestConfig_every (Or.inl (b.configOnly hk))
        (b.base_ctrl b hk).2 hconfig
  have hctrl : v.regs b.rxbCtrl = c.regs b.rxbCtrl :=
    (hkept _ (setting_rxbCtrl b) hctrlne hctrlout).eq_of_not_txCtrl (not_txCtrl_rxbCtrl b)
  rcases backToNormal_regs hnormal with ⟨hcanctrl, hrxb⟩
  rw [hctrl] at hrxb
  refine ⟨?_, ?_, ?_, ?_, ?_⟩
  · refine hencoded.kept fun k hk => ?_
    exact Chip.kept_of_eval (backToNormal_every b.rxbCtrl) (Or.inl (b.configOnly hk))
      (not_or.2 (b.base_ctrl b hk).symm) hnormal
  · rw [hrxb, BitVec.and_assoc]
    exact BitVec.and_zero
  · rw [hrxb, BitVec.and_assoc]
    rfl
  · rw [hcanctrl]
    decide
  · intro a ha hcan hrxbne hout
    exact (hkept a ha hcan hout).trans
      (Chip.kept_of_eval (backToNormal_every b.rxbCtrl) ha (not_or.2 ⟨hcan, hrxbne⟩) hnormal)

/-- The chip stands still: no time passes between the transactions. -/
theorem eval_act (p : Driver Unit) (c : Chip) :
    p.Eval (Chip.Outcome por z) c () (p.run ((Chip.slave por z).act) c).2 :=
  Prog.eval_of_run (fun _ s => ⟨s, Chip.Elapse.refl s, rfl, rfl⟩) p c

/-- The state in which a call finds, and leaves, the locked registers while a transmission is
pending. -/
structure Busy (r : Regs) (c : Chip) : Prop where
  transmitting : c.Transmitting
  locked : c.mode ≠ .configuration
  same : ∀ a, ConfigOnly a → c.regs a = r a

theorem Busy.write {r : Regs} {c : Chip} {addr data : Byte} (h : Busy r c) (haddr : ¬ TxCtrl addr) :
    Busy r (c.write addr data) where
  transmitting := (Chip.write_transmitting haddr).2 h.transmitting
  locked := Chip.write_mode_of_transmitting h.transmitting h.locked
  same a ha := by
    rw [← h.same a ha]
    by_cases heq : a = addr
    · subst heq
      rw [Chip.write, if_pos ⟨ha, h.locked⟩]
    · exact Chip.write_regs_of_ne heq

theorem Busy.act {r : Regs} {c : Chip} {a : BusAct} (h : Busy r c)
    (ha : ∀ addr, Writes a addr → ¬ TxCtrl addr) : Busy r ((Chip.slave por z).act a c).2 := by
  cases a with
  | writeByte addr data =>
      have hwrite : Busy r (c.write addr data) := h.write (ha addr rfl)
      rw [Chip.act_writeByte]
      exact ⟨hwrite.transmitting, hwrite.locked, hwrite.same⟩
  | bitModify addr mask data =>
      have hwrite : Busy r (c.write addr (c.regs addr &&& ~~~mask ||| data &&& mask)) :=
        h.write (ha addr rfl)
      rw [Chip.act_bitModify]
      exact ⟨hwrite.transmitting, hwrite.locked, hwrite.same⟩
  | _ => exact ⟨h.transmitting, h.locked, h.same⟩

/-- A call stays away from the control registers of the transmit buffers. -/
theorem programFilterOrMask_every :
    (programFilterOrMask b.base b.rxbCtrl id extended).Every
      fun a => ∀ addr, Writes a addr → ¬ TxCtrl addr := by
  have hcan : ¬ TxCtrl CANCTRL := by decide
  rw [programFilterOrMask_eq]
  refine (requestConfig_every.mono ?_).bind fun _ =>
    ((writeFilterOrMask_every b.base).mono ?_).bind fun _ =>
      (backToNormal_every b.rxbCtrl).mono ?_
  · intro a ha addr hw
    rw [ha addr hw]
    exact hcan
  · intro a ha addr hw
    exact not_txCtrl_of_configOnly (b.configOnly_of_lt (ha addr hw))
  · intro a ha addr hw
    rcases ha addr hw with heq | heq
    · rw [heq]
      exact hcan
    · rw [heq]
      exact not_txCtrl_rxbCtrl b

/-- While a transmission is pending the block stays as it is. -/
theorem encoded_of_transmitting {c : Chip} (hbusy : c.Transmitting) (hmode : c.mode = .normal)
    (h : ∀ t, (programFilterOrMask b.base b.rxbCtrl id extended).Eval (Chip.Outcome por z) c () t →
      Programmed b id extended c.regs t.regs) : Encoded b id extended c.regs := by
  have hlocked : c.mode ≠ .configuration := by
    rw [hmode]
    decide
  have hrun : Busy c.regs
      ((programFilterOrMask b.base b.rxbCtrl id extended).run ((Chip.slave por z).act) c).2 :=
    Prog.run_invariant (fun _ _ ha hI => hI.act ha) _ c (programFilterOrMask_every.performs c)
      ⟨hbusy, hlocked, fun _ _ => rfl⟩
  intro k hk
  rw [← (h _ (eval_act _ c)).block k hk]
  exact (hrun.same _ (b.configOnly hk)).symm

end Call

/-- Every call from normal mode achieves what it should, whenever transmissions finish. -/
def AlwaysPrograms : Prop :=
  ∀ (por : Reset) (z : Byte) (call : FilterCall) (c t : Chip), c.mode = .normal →
    call.value.1 < 0x20000000#32 → call.driver.Eval (Chip.Outcome por z) c () t →
      call.Achieves c t

/-- From normal mode, a call achieves what it should whenever transmissions finish exactly if its
index is out of range, no transmission is pending when it starts, or the block holds the identifier
already. -/
theorem achieves_iff (por : Reset) (z : Byte) (call : FilterCall) (c : Chip)
    (hmode : c.mode = .normal) :
    (∀ t, call.driver.Eval (Chip.Outcome por z) c () t → call.Achieves c t) ↔
      ∀ b, call.target = some b →
        ¬ c.Transmitting ∨ Encoded b call.value.1 call.value.2 c.regs := by
  cases htarget : call.target with
  | none =>
      rw [call.driver_of_none htarget]
      simp [FilterCall.Achieves, htarget]
  | some b =>
      rw [call.driver_of_target htarget]
      simp only [FilterCall.Achieves, htarget, Option.some.injEq, forall_eq']
      constructor
      · intro h
        by_cases hbusy : c.Transmitting
        · exact Or.inr (encoded_of_transmitting hbusy hmode h)
        · exact Or.inl hbusy
      · intro hc t heval
        exact programmed_of_eval hc heval

/-- A chip in normal mode all of whose registers are zero but for a request in TXB0. -/
def Chip.sending : Chip where
  regs := Regs.write (fun _ => 0#8) TXB0CTRL TXREQ
  mode := .normal
  phase := .ignore

theorem achieves_iff_sending :
    (∀ t, (FilterCall.setMask 1#8 0#32 false).driver.Eval (Chip.Outcome resetValues 0#8)
        Chip.sending () t → (FilterCall.setMask 1#8 0#32 false).Achieves Chip.sending t) ↔
      ∀ b, (FilterCall.setMask 1#8 0#32 false).target = some b →
        ¬ Chip.sending.Transmitting ∨ Encoded b 0#32 false Chip.sending.regs :=
  achieves_iff resetValues 0#8 (.setMask 1#8 0#32 false) Chip.sending rfl

/-- While TXB0 waits to be sent, `setFilter(0, 0x123)` returns with the filter as it was. -/
theorem not_alwaysPrograms : ¬ AlwaysPrograms := by
  intro h
  have htarget : (FilterCall.setFilter 0#8 0x123#32 false).target = some (.filter 0) := by decide
  have hprograms : ∀ t, (programFilterOrMask (AccBlock.filter 0).base (AccBlock.filter 0).rxbCtrl
      0x123#32 false).Eval (Chip.Outcome resetValues 0#8) Chip.sending () t →
        Programmed (.filter 0) 0x123#32 false Chip.sending.regs t.regs := by
    intro t ht
    have heval : (FilterCall.setFilter 0#8 0x123#32 false).driver.Eval
        (Chip.Outcome resetValues 0#8) Chip.sending () t := by
      rw [FilterCall.driver_of_target htarget]
      exact ht
    have hachieves := h _ _ _ _ _ rfl (by decide) heval
    simp only [FilterCall.Achieves, htarget] at hachieves
    exact hachieves
  have hencoded : Encoded (.filter 0) 0x123#32 false Chip.sending.regs :=
    encoded_of_transmitting (by decide) rfl hprograms
  exact absurd (hencoded 0 (by decide)) (by decide)

end Mcp2515
end PicoCppSdk
