import PicoCppSdk.Mcp2515Task.Mask

/-!
# Order — frames are returned in the order in which they came

With rollover a frame goes to RXB0 if `RX0IF` is clear, else to RXB1.  `canService` clears `RX0IF`
before the frame is read, and a reader takes RXB0 first: a frame that comes to RXB0 while an older
one waits in RXB1 is returned before it.  `_pendingRxBuf` does not say which one is older.

The order is kept as long as no call finds bit 0 set while the oldest frame is in RXB1, and the
stores to the mask do not disturb its bit 0.
-/

namespace PicoCppSdk
namespace Mcp2515Task

open Atomic Mcp2515 Transition

variable {s t : Sys}

/-! ## Frames -/

/-- A frame as the caller of a read sees it: identifier, length code, and at most eight bytes. -/
structure Content where
  canId : BitVec 32
  len : Byte
  data : List Byte
  deriving DecidableEq

/-- The frame in the registers of a receive buffer. -/
def content (img : RxImage) : Content where
  canId := decodeId img.sidh img.sidl img.eid8 img.eid0
  len := img.dlc &&& 0x0F#8
  data := (List.range (min (img.dlc &&& 0x0F#8).toNat 8)).map fun i => img.byte (5 + i)

/-- The frame that a read has stored through its pointers. -/
def contentReturned (x : Received) : Content where
  canId := x.canId
  len := x.len
  data := (List.range (min x.len.toNat 8)).map x.buf

/-! ### Inside a read -/

/-- The answers of the controller while buffer `n` holds `img`; other registers may change between
two of them. -/
def Answers (n : RxBuf) (img : RxImage) (a : BusAct) (_ : Unit) (x : a.Ans) (_ : Unit) : Prop :=
  ∃ r : Regs, Holds r n img ∧ (a.onRegs r).1 = x

/-- The rest of a read of buffer `n` stores the frame `img`, as long as the buffer holds it. -/
def Delivers (n : RxBuf) (img : RxImage) (p : Driver Received) : Prop :=
  ∀ x, p.Eval (Answers n img) () x () → contentReturned x = content img

section Delivers

variable {n : RxBuf} {img : RxImage}

theorem answers_readByte {k : Nat} (hk : k < 13) {b : Byte} :
    Answers n img (.readByte (n.base + BitVec.ofNat 8 k)) () b () → b = img.byte k := by
  rintro ⟨r, hr, rfl⟩
  exact hr k hk

theorem decodeId_of_eval {sidh sidl : Byte} {x : BitVec 32}
    (h : (rxBufferId (n.base + BitVec.ofNat 8 2) (n.base + BitVec.ofNat 8 3) sidh sidl).Eval
      (Answers n img) () x ()) : x = decodeId sidh sidl (img.byte 2) (img.byte 3) := by
  unfold rxBufferId at h
  unfold decodeId
  split at h
  · rename_i hext
    rcases h with ⟨eid8, _, h8, eid0, _, h0, rfl, -⟩
    rw [if_pos hext, answers_readByte (by decide) h8, answers_readByte (by decide) h0]
  · rename_i hstd
    rw [if_neg hstd]
    exact h.1

/-- The data bytes of the buffer are stored at their places; what comes from behind it does not
change them. -/
theorem byte_of_eval_readData {m : Nat} :
    ∀ {i : Nat} {buf out : Nat → Byte},
      (readData (n.base + BitVec.ofNat 8 5) i m buf).Eval (Answers n img) () out () →
        ∀ j, j < 8 → out j = if i ≤ j ∧ j < i + m then img.byte (5 + j) else buf j := by
  -- Induction on the number of data bytes still to be read, from byte `i` on.
  induction m with
  | zero =>
      intro i buf out h j _
      have hnone : ¬ (i ≤ j ∧ j < i + 0) := by omega
      rw [if_neg hnone, h.1]
  | succ m ih =>
      intro i buf out h j hj
      rcases h with ⟨b, _, hb, hrest⟩
      have hout := ih hrest j hj
      rw [hout]
      by_cases hij : j = i
      · subst hij
        -- The byte that is read now; the recursive calls leave it as it is.
        have hadd : n.base + BitVec.ofNat 8 5 + BitVec.ofNat 8 j =
            n.base + BitVec.ofNat 8 (5 + j) := by
          rw [BitVec.add_assoc, ← BitVec.ofNat_add]
        rw [hadd] at hb
        have hnot : ¬ (j + 1 ≤ j ∧ j < j + 1 + m) := by omega
        have hin : j ≤ j ∧ j < j + (m + 1) := by omega
        rw [if_neg hnot, if_pos hin, Function.update_self]
        exact answers_readByte (by omega) hb
      · have hiff : (i + 1 ≤ j ∧ j < i + 1 + m) ↔ (i ≤ j ∧ j < i + (m + 1)) := by omega
        simp only [hiff, Function.update_of_ne hij]

theorem delivers_rxRead (n : RxBuf) (img : RxImage) (buf : Nat → Byte) :
    Delivers n img (rxRead n buf) := by
  intro x h
  rw [rxRead_eq] at h
  simp only [rxBufferRead, readByte_bind] at h
  rcases h with ⟨sidh, _, h0, sidl, _, h1, dlc, _, h4, h⟩
  -- The driver reads RXBnSIDH, RXBnSIDL and RXBnDLC before the identifier and the data.
  have hsidh : sidh = img.byte 0 := answers_readByte (by decide) h0
  have hsidl : sidl = img.byte 1 := answers_readByte (by decide) h1
  have hdlc : dlc = img.byte 4 := answers_readByte (by decide) h4
  subst hsidh hsidl hdlc
  rcases (Prog.eval_bind _ _ _ _ _).1 h with ⟨canId, _, hid, h⟩
  rcases (Prog.eval_bind _ _ _ _ _).1 h with ⟨out, _, hout, rfl, -⟩
  have hcanId := decodeId_of_eval hid
  have hbytes := byte_of_eval_readData hout
  simp only [contentReturned, content, Content.mk.injEq]
  refine ⟨hcanId, rfl, ?_⟩
  apply List.map_congr_left
  intro i hi
  have hlt := lt_min_iff.1 (List.mem_range.1 hi)
  rw [hbytes i hlt.2, if_pos ⟨Nat.zero_le i, by rw [Nat.zero_add]; exact hlt.1⟩]

theorem Delivers.answer {a : BusAct} {k : a.Ans → Driver Received} {r : Regs}
    (h : Delivers n img (.act a k)) (hr : Holds r n img) : Delivers n img (k (a.onRegs r).1) :=
  fun x hx => h x ⟨_, (), ⟨r, hr, rfl⟩, hx⟩

theorem Delivers.result {x : Received} (h : Delivers n img (.ret x)) :
    contentReturned x = content img :=
  h x ⟨rfl, rfl⟩

end Delivers

/-! ## Histories -/

/-- The frames that were loaded, oldest first. -/
def loaded : List Event → List (RxBuf × Content)
  | [] => []
  | .loaded n img :: tr => loaded tr ++ [(n, content img)]
  | .dropped _ :: tr => loaded tr
  | .returned _ _ _ :: tr => loaded tr
  | .submitted _ :: tr => loaded tr
  | .transmitted _ :: tr => loaded tr

/-- The frames that were returned, oldest first. -/
def returned : List Event → List (RxBuf × Content)
  | [] => []
  | .returned n x _ :: tr => returned tr ++ [(n, contentReturned x)]
  | .loaded _ _ :: tr => returned tr
  | .dropped _ :: tr => returned tr
  | .submitted _ :: tr => returned tr
  | .transmitted _ :: tr => returned tr

/-- The frames that were loaded and not returned, oldest first. -/
def waiting : List Event → List (RxBuf × Content)
  | [] => []
  | .loaded n img :: tr => waiting tr ++ [(n, content img)]
  | .returned n _ _ :: tr => (waiting tr).eraseP fun p => p.1 == n
  | .dropped _ :: tr => waiting tr
  | .submitted _ :: tr => waiting tr
  | .transmitted _ :: tr => waiting tr

/-- The buffer of the oldest frame that waits. -/
def oldest (tr : List Event) : Option RxBuf :=
  (waiting tr).head?.map Prod.fst

/-- Frames are returned in the order in which they were loaded. -/
def InOrder (tr : List Event) : Prop :=
  returned tr <+: loaded tr

/-- What was loaded is what was returned, followed by what waits, at most one frame a buffer. -/
structure Queue (tr : List Event) : Prop where
  split : loaded tr = returned tr ++ waiting tr
  mem : ∀ n c, (n, c) ∈ waiting tr ↔ ∃ img, unread n tr = some img ∧ content img = c
  nodup : ((waiting tr).map Prod.fst).Nodup

namespace Queue

variable {n : RxBuf} {img : RxImage} {tr : List Event} {e : Event}

theorem nil : Queue [] :=
  ⟨rfl, by simp [waiting, unread], List.nodup_nil⟩

theorem inOrder (h : Queue tr) : InOrder tr :=
  ⟨waiting tr, h.split.symm⟩

theorem other (h : Queue tr) (he : ∀ n, e.about n = false) : Queue (e :: tr) := by
  cases e with
  | loaded n img => exact absurd (he n) (by simp [Event.about])
  | returned n x now => exact absurd (he n) (by simp [Event.about])
  | _ => exact ⟨h.split, h.mem, h.nodup⟩

theorem oldest_cons_of_not_about (he : ∀ n, e.about n = false) : oldest (e :: tr) = oldest tr := by
  cases e with
  | loaded n img => exact absurd (he n) (by simp [Event.about])
  | returned n x now => exact absurd (he n) (by simp [Event.about])
  | _ => rfl

theorem isSome_of_oldest (h : Queue tr) (hn : oldest tr = some n) :
    (unread n tr).isSome = true := by
  rcases Option.map_eq_some_iff.1 hn with ⟨⟨m, c⟩, hhead, rfl⟩
  rcases (h.mem m c).1 (List.mem_of_mem_head? hhead) with ⟨img, himg, -⟩
  rw [himg]
  rfl

theorem exists_oldest (h : Queue tr) (hn : unread n tr = some img) :
    ∃ m, oldest tr = some m := by
  have hmem := (h.mem n (content img)).2 ⟨img, hn, rfl⟩
  cases hw : waiting tr with
  | nil =>
      rw [hw] at hmem
      cases hmem
  | cons p rest => exact ⟨p.1, by rw [oldest, hw]; rfl⟩

/-- The only frame that waits is the oldest. -/
theorem oldest_of_unread (h : Queue tr) (hn : unread n tr = some img)
    (hother : ∀ m, m ≠ n → unread m tr = none) : oldest tr = some n := by
  rcases h.exists_oldest hn with ⟨m, hm⟩
  have hsome := h.isSome_of_oldest hm
  by_cases hmn : m = n
  · rw [hm, hmn]
  · rw [hother m hmn] at hsome
    cases hsome

theorem oldest_loaded {m : RxBuf} (hm : oldest tr = some m) :
    oldest (.loaded n img :: tr) = some m := by
  rcases Option.map_eq_some_iff.1 hm with ⟨p, hhead, rfl⟩
  rw [oldest, waiting, List.head?_append, hhead]
  rfl

theorem loaded (h : Queue tr) (hempty : unread n tr = none) : Queue (.loaded n img :: tr) := by
  have hnot : ∀ c, (n, c) ∉ waiting tr := by
    intro c hmem
    rcases (h.mem n c).1 hmem with ⟨img', himg', -⟩
    rw [hempty] at himg'
    cases himg'
  refine ⟨?_, ?_, ?_⟩
  -- The new frame is the last that waits, and the only one in its buffer.
  · calc
      Mcp2515Task.loaded (.loaded n img :: tr)
          = Mcp2515Task.loaded tr ++ [(n, content img)] := rfl
      _ = Mcp2515Task.returned tr ++ waiting tr ++ [(n, content img)] := by rw [h.split]
      _ = Mcp2515Task.returned tr ++ (waiting tr ++ [(n, content img)]) := List.append_assoc ..
  · intro m c
    have hunread : unread m (.loaded n img :: tr) =
        if n = m then some img else unread m tr := rfl
    rw [hunread]
    simp only [waiting, List.mem_append, List.mem_singleton, Prod.mk.injEq]
    by_cases hm : n = m
    · subst hm
      simp [hnot c, eq_comm]
    · rw [if_neg hm, ← h.mem m c]
      simp [Ne.symm hm]
  · simp only [waiting, List.map_append, List.map_cons, List.map_nil]
    refine List.nodup_append'.2 ⟨h.nodup, List.nodup_singleton n, ?_⟩
    intro m hm hmn
    rcases List.mem_map.1 hm with ⟨⟨m', c⟩, hmem, rfl⟩
    cases List.mem_singleton.1 hmn
    exact hnot c hmem

/-- The oldest frame is returned. -/
theorem returned (h : Queue tr) (hold : oldest tr = some n) (hn : unread n tr = some img)
    {x : Received} {now : Nat} (hx : contentReturned x = content img) :
    Queue (.returned n x now :: tr) := by
  have hmem := (h.mem n (content img)).2 ⟨img, hn, rfl⟩
  cases hw : waiting tr with
  | nil =>
      rw [hw] at hmem
      cases hmem
  | cons p rest =>
      rcases p with ⟨m, c⟩
      rw [oldest, hw] at hold
      have hmn : n = m := (Option.some.inj hold).symm
      subst hmn
      have hnodup := h.nodup
      rw [hw, List.map_cons] at hnodup
      rcases List.nodup_cons.1 hnodup with ⟨hnot, hrest⟩
      have hnone : ∀ c, (n, c) ∉ rest := fun c hc => hnot (List.mem_map.2 ⟨_, hc, rfl⟩)
      -- The first of those that wait is the one that is returned.
      have hc : c = content img := by
        rw [hw] at hmem
        rcases List.mem_cons.1 hmem with heq | hin
        · cases heq
          rfl
        · exact absurd hin (hnone _)
      have herase : waiting (.returned n x now :: tr) = rest := by
        rw [waiting, hw]
        exact List.eraseP_cons_of_pos (beq_self_eq_true n)
      refine ⟨?_, ?_, ?_⟩
      · calc
          Mcp2515Task.loaded (.returned n x now :: tr) = Mcp2515Task.loaded tr := rfl
          _ = Mcp2515Task.returned tr ++ waiting tr := h.split
          _ = Mcp2515Task.returned tr ++ ([(n, contentReturned x)] ++ rest) := by
                rw [hw, hc, hx, List.singleton_append]
          _ = Mcp2515Task.returned (.returned n x now :: tr) ++ rest :=
                (List.append_assoc ..).symm
          _ = Mcp2515Task.returned (.returned n x now :: tr) ++
                waiting (.returned n x now :: tr) := by rw [herase]
      · intro m c'
        have hunread : unread m (.returned n x now :: tr) =
            if n = m then none else unread m tr := rfl
        rw [herase, hunread]
        by_cases hm : n = m
        · subst hm
          simp [hnone c']
        · rw [if_neg hm, ← h.mem m c', hw]
          simp [Ne.symm hm]
      · rw [herase]
        exact hrest

end Queue

/-! ## Which frame is older -/

/-- The frame in RXB0 is ahead of the one in RXB1: where `canService` has read the flag of RXB1 it
has read that of RXB0 too, and it takes RXB1 over after RXB0. -/
structure Ahead (intf : Byte) (pc : RunPc) : Prop where
  saw : pc.sawRx .b1 = true → intf.getLsbD 0 = true → pc.sawRx .b0 = true
  flag : intf.getLsbD 1 = false → intf.getLsbD 0 = false ∧ pc.taking .b0 = false

namespace Ahead

variable {intf intf' mask : Byte} {pc pc' : RunPc} {saw owed full : RxBuf → Bool}

/-- To a point at which no buffer is being taken over, the flags being what they were. -/
theorem goTo (h : Ahead intf pc) (hintf : ∀ n, intf'.getLsbD (index n) = intf.getLsbD (index n))
    (hpc' : pc'.Serving saw owed)
    (hsaw : saw .b1 = true → intf.getLsbD 0 = true → pc'.sawRx .b0 = true) :
    Ahead intf' pc' := by
  have hzero : intf'.getLsbD 0 = intf.getLsbD 0 := hintf .b0
  have hone : intf'.getLsbD 1 = intf.getLsbD 1 := hintf .b1
  refine ⟨?_, ?_⟩
  · intro hb1 hflag
    exact hsaw (hpc'.saw .b1 hb1) (hzero ▸ hflag)
  · intro hflag
    rw [hzero]
    exact ⟨(h.flag (hone ▸ hflag)).1, hpc'.taking .b0⟩

theorem toIdle (h : Ahead intf pc) (hintf : ∀ n, intf'.getLsbD (index n) = intf.getLsbD (index n))
    (hpc' : pc'.Idle) : Ahead intf' pc' :=
  h.goTo hintf hpc' nofun

theorem getLsbD_modify_clear {r : Regs} {m : Byte} (hm : ∀ n, m.getLsbD (index n) = false)
    (n : RxBuf) :
    ((r.modify CANINTF m 0#8) CANINTF).getLsbD (index n) = (r CANINTF).getLsbD (index n) := by
  rw [Regs.modify_self, getLsbD_clear, hm n, Bool.not_false, Bool.and_true]

/-- `bitModify(CANINTF, RXnIF, 0)`. -/
theorem clear {n : RxBuf} {f : Byte} (h : Ahead intf (.rxClear n f))
    (hn : intf.getLsbD (index n) = true) :
    Ahead (intf &&& ~~~rxFlag n ||| 0#8 &&& rxFlag n) (.rxLoad n f) := by
  cases n with
  | b0 =>
      -- The flag of RXB0 is set here, so that of RXB1 is as well.
      have hone : intf.getLsbD 1 = true := by
        by_contra hnot
        have hflag := (h.flag (Bool.eq_false_iff.2 hnot)).1
        cases hn.symm.trans hflag
      refine ⟨?_, ?_⟩
      · intro _ hset
        rw [getLsbD_clear, show (rxFlag .b0).getLsbD 0 = true by decide, Bool.not_true,
          Bool.and_false] at hset
        cases hset
      · intro hclear
        rw [getLsbD_clear, hone] at hclear
        exact absurd hclear (by decide)
  | b1 =>
      -- The flag of RXB0 is no longer set: it would be served first.
      have hzero : intf.getLsbD 0 = false := by
        by_contra hnot
        have hsaw := h.saw rfl (Bool.eq_true_of_not_eq_false hnot)
        cases hsaw
      refine ⟨nofun, ?_⟩
      intro _
      rw [getLsbD_clear, hzero]
      exact ⟨rfl, rfl⟩

theorem can (h : Ahead (s.regs CANINTF) s.can)
    (hcounts : RxCounts (s.regs CANINTF) s.can mask s.rxSem s.reader full) (hm : CanMove s t) :
    Ahead (t.regs CANINTF) t.can := by
  cases hm with
  | readIntf hpc =>
      by_cases herr : s.regs CANINTF &&& (MERRF ||| WAKIF ||| ERRIF) ≠ 0#8
      · refine h.toIdle (fun _ => rfl) ?_
        dsimp only
        rw [RunPc.goto_fromIntf, if_pos herr]
        exact RunPc.idle_of_apart rfl
      · have hgo : RunPc.goto (RunPc.fromIntf (s.regs CANINTF)) =
            RunPc.goto (RunPc.fromStamp (s.regs CANINTF)) := by
          rw [RunPc.goto_fromIntf, if_neg herr]
        refine h.goTo (fun _ => rfl) (hgo ▸ RunPc.serving_fromStamp (s.regs CANINTF)) ?_
        -- One value of `CANINTF` shows both flags.
        intro _ hzero
        have hflag : s.regs CANINTF &&& RX0IF ≠ 0#8 := (and_bit0 _).2 hzero
        dsimp only
        rw [hgo, RunPc.goto_fromStamp, if_pos (Or.inl hflag)]
        exact hzero
  | clearErr eflg hpc =>
      refine h.toIdle (getLsbD_modify_clear (by intro n; cases n <;> decide)) ?_
      dsimp only
      split <;> exact RunPc.idle_of_apart rfl
  | stampLoad f hpc =>
      rw [hpc] at h
      exact ⟨h.saw, h.flag⟩
  | stampStore f now hpc =>
      rw [hpc] at h
      refine h.goTo (fun _ => rfl) (RunPc.serving_fromRx0 f) ?_
      -- The value that was read shows RXB0 too, and RXB0 is served first.
      intro hone hzero
      have hf : f.getLsbD 0 = true := h.saw hone hzero
      have hflag : f &&& RX0IF ≠ 0#8 := (and_bit0 f).2 hf
      dsimp only
      rw [RunPc.goto_fromRx0, if_pos hflag]
      rfl
  | rxClear n f hpc =>
      rw [hpc] at h hcounts
      have hclear := h.clear (hcounts.seen n (by simp [RunPc.sawRx]))
      rw [← Regs.modify_self] at hclear
      exact hclear
  | rxLoad n f hpc =>
      rw [hpc] at h
      exact ⟨h.saw, h.flag⟩
  | rxStore n f v hpc =>
      rw [hpc] at h hcounts
      refine h.goTo (fun _ => rfl) (RunPc.serving_afterRx f hcounts.named) ?_
      intro hsaw hzero
      cases n with
      | b0 =>
          -- A frame has one place, and this one is with `canService`.
          have hplace := hcounts.place .b0
          have hle := Bool.toNat_le (full .b0)
          have htaking : (RunPc.rxStore .b0 f v).taking .b0 = true := rfl
          have hzero' : (s.regs CANINTF).getLsbD (index .b0) = true := hzero
          rw [hzero', htaking, Bool.toNat_true] at hplace
          omega
      | b1 => cases hsaw
  | txClear f hpc =>
      -- From here on in the turn, nothing that was read of RXB1 is left to serve.
      exact h.goTo (getLsbD_modify_clear (by intro n; cases n <;> decide))
        ⟨fun _ => rfl, fun _ => id, fun _ => rfl, rfl⟩ (by rintro ⟨⟩)
  | txLoad f hpc =>
      exact h.goTo (fun _ => rfl) ⟨fun _ => rfl, fun _ => id, fun _ => rfl, rfl⟩ (by rintro ⟨⟩)
  | txStore f v hpc => exact h.goTo (fun _ => rfl) (RunPc.serving_fromGive0 f) (by rintro ⟨⟩)
  | rxGive n f hpc => exact h.goTo (fun _ => rfl) (RunPc.serving_afterGive f n) (by rintro ⟨⟩)
  | _ => exact h.toIdle (fun _ => rfl) (RunPc.idle_of_apart rfl)

end Ahead

/-! ## The invariant -/

/-- A call is about to find bit 0 set, with the oldest frame in RXB1. -/
def Sys.Overtakes (s : Sys) : Prop :=
  s.reader.any ReadPc.tests = true ∧ s.pendingRxBuf.getLsbD 0 = true ∧ oldest s.trace = some .b1

instance (s : Sys) : Decidable s.Overtakes :=
  inferInstanceAs (Decidable (_ ∧ _ ∧ _))

/-- The frames that wait are in their order: a call picks the oldest, and where the frame in RXB0 is
older than the one in RXB1, `canService` comes to it first. -/
structure Sys.InQueue (s : Sys) : Prop where
  queue : Queue s.trace
  picked : ∀ n, s.reader.any (ReadPc.picked n) = true → oldest s.trace = some n
  delivers : ∀ n now a k, s.reader = some (.reading n now a k) →
    ∃ img, unread n s.trace = some img ∧ Delivers n img (.act a k)
  ahead : oldest s.trace = some .b0 → (unread .b1 s.trace).isSome = true →
    Ahead (s.regs CANINTF) s.can

namespace Sys.InQueue

variable {mask : Byte}

/-- A step that changes neither the flags nor what the two tasks of the receive side do. -/
theorem congr (h : s.InQueue)
    (htrace : t.trace = s.trace ∨ ∃ e, (∀ n, Event.about n e = false) ∧ t.trace = e :: s.trace)
    (hreader : t.reader = s.reader) (hcan : t.can = s.can)
    (hintf : ∀ n, (t.regs CANINTF).getLsbD (index n) = (s.regs CANINTF).getLsbD (index n)) :
    t.InQueue := by
  have hsame : Queue t.trace ∧ oldest t.trace = oldest s.trace ∧
      ∀ n, unread n t.trace = unread n s.trace := by
    rcases htrace with htrace | ⟨e, he, htrace⟩
    · rw [htrace]
      exact ⟨h.queue, rfl, fun _ => rfl⟩
    · rw [htrace]
      exact ⟨h.queue.other he, Queue.oldest_cons_of_not_about he,
        fun n => unread_cons_of_not_about (he n)⟩
  rcases hsame with ⟨hqueue, hold, hunread⟩
  refine ⟨hqueue, ?_, ?_, ?_⟩
  · intro n hn
    -- No frame comes or goes, so the oldest frame and what is unread stay.
    rw [hold]
    exact h.picked n (hreader ▸ hn)
  · intro n now a k hr
    rw [hunread n]
    exact h.delivers n now a k (hreader ▸ hr)
  · intro hzero hone
    rw [hold] at hzero
    rw [hunread] at hone
    have hahead := h.ahead hzero hone
    rw [hcan]
    refine ⟨?_, ?_⟩
    · intro hsaw hflag
      exact hahead.saw hsaw ((hintf .b0).symm.trans hflag)
    · intro hflag
      have hflags := hahead.flag ((hintf .b1).symm.trans hflag)
      exact ⟨(hintf .b0).trans hflags.1, hflags.2⟩

theorem can (h : s.InQueue) (hdelivery : s.Delivery mask) (hm : CanMove s t) : t.InQueue := by
  rcases hm.frame with ⟨hreader, -, htrace, -⟩
  refine ⟨?_, ?_, ?_, ?_⟩
  · rw [htrace]
    exact h.queue
  · rw [htrace, hreader]
    exact h.picked
  · rw [htrace, hreader]
    exact h.delivers
  · rw [htrace]
    intro hzero hone
    exact (h.ahead hzero hone).can hdelivery.counts hm

/-- The reader picks the oldest frame. -/
theorem oldest_of_test (h : s.InQueue) (hdelivery : s.Delivery mask)
    (hzero : s.pendingRxBuf.getLsbD 0 = mask.getLsbD 0) (hok : ¬ s.Overtakes)
    {buf : Nat → Byte} {now : Nat} (hpc : s.reader = some (.test buf now)) {n : RxBuf}
    (hn : (ReadPc.fromTest buf now s.pendingRxBuf).picked n = true) :
    oldest s.trace = some n := by
  have hcounts := hdelivery.counts
  rw [hpc] at hcounts
  by_cases hbit : s.pendingRxBuf &&& 0x01#8 ≠ 0#8
  · have hset : s.pendingRxBuf.getLsbD 0 = true := (and_bit0 _).1 hbit
    have hgo : ReadPc.fromTest buf now s.pendingRxBuf = .load .b0 buf now := if_pos hbit
    rw [hgo] at hn
    have hn0 : RxBuf.b0 = n := eq_of_beq hn
    subst hn0
    have hmask : mask.getLsbD (index .b0) = true := hzero ▸ hset
    rcases Option.isSome_iff_exists.1 (hcounts.full_of_mask hmask) with ⟨img, himg⟩
    rcases h.queue.exists_oldest himg with ⟨m, hm⟩
    cases m with
    | b0 => exact hm
    -- Were RXB1 older, the call would overtake it.
    | b1 => exact absurd ⟨by rw [hpc]; rfl, hset, hm⟩ hok
  · have hclear : s.pendingRxBuf.getLsbD 0 = false := not_test (and_bit0 _) hbit
    have hgo : ReadPc.fromTest buf now s.pendingRxBuf = .load .b1 buf now := if_neg hbit
    rw [hgo] at hn
    have hn1 : RxBuf.b1 = n := eq_of_beq hn
    subst hn1
    have hmask0 : mask.getLsbD (index .b0) = false := hzero ▸ hclear
    -- The token stands for bit 1.
    have hmask1 : mask.getLsbD (index .b1) = true := by
      have htokens := hcounts.tokens
      cases hset : mask.getLsbD (index .b1) with
      | true => rfl
      | false =>
          simp only [index] at hmask0 hset
          simp only [hmask0, hset, Option.any_some, ReadPc.holds, Bool.toNat_true,
            Bool.toNat_false] at htokens
          omega
    have hfull1 := hcounts.full_of_mask hmask1
    rcases Option.isSome_iff_exists.1 hfull1 with ⟨img, himg⟩
    rcases h.queue.exists_oldest himg with ⟨m, hm⟩
    cases m with
    | b1 => exact hm
    | b0 =>
        -- A frame in RXB0 that is older has its bit set by now.
        have hahead := h.ahead hm hfull1
        have hplace1 := hcounts.place .b1
        have hintf1 : (s.regs CANINTF).getLsbD (index .b1) = false := by
          have hle := Bool.toNat_le (unread .b1 s.trace).isSome
          cases hflag : (s.regs CANINTF).getLsbD (index .b1) with
          | false => rfl
          | true =>
              rw [hflag, hmask1, Bool.toNat_true] at hplace1
              omega
        rcases hahead.flag hintf1 with ⟨hintf0, htaking0⟩
        have hempty := hcounts.empty (n := .b0) hintf0 htaking0 hmask0 rfl
        have hfull0 := h.queue.isSome_of_oldest hm
        rw [hempty] at hfull0
        cases hfull0

theorem reader (h : s.InQueue) (hdelivery : s.Delivery mask)
    (hzero : s.pendingRxBuf.getLsbD 0 = mask.getLsbD 0) (hok : ¬ s.Overtakes)
    (hm : ReaderMove s t) : t.InQueue := by
  have hregs := hm.regs hdelivery.reads
  have hcounts := hdelivery.counts
  cases hm with
  | take buf hpc hsem => exact ⟨h.queue, by rintro n ⟨⟩, by rintro n now a k ⟨⟩, h.ahead⟩
  | stamp buf hpc => exact ⟨h.queue, by rintro n ⟨⟩, by rintro n now a k ⟨⟩, h.ahead⟩
  | test buf now hpc =>
      refine ⟨h.queue, fun n hn => h.oldest_of_test hdelivery hzero hok hpc hn, ?_, h.ahead⟩
      intro n now' a k hr
      simp only [ReadPc.fromTest, Option.some.injEq] at hr
      split at hr <;> cases hr
  | load n buf now hpc =>
      refine ⟨h.queue, ?_, by rintro n now a k ⟨⟩, h.ahead⟩
      intro m hm
      exact h.picked m (by rw [hpc]; exact hm)
  | store n buf now v a k hpc hread =>
      refine ⟨h.queue, ?_, ?_, h.ahead⟩
      · intro m hm
        exact h.picked m (by rw [hpc]; exact hm)
      · intro n' now' a' k' hr
        -- `rxRead` starts here, on a buffer that holds the frame it is going to deliver.
        have hset : mask.getLsbD (index n) = true := by
          apply hcounts.chosen
          rw [hpc]
          exact beq_self_eq_true n
        rcases Option.isSome_iff_exists.1 (hcounts.full_of_mask hset) with ⟨img, himg⟩
        have hdelivers := delivers_rxRead n img buf
        rw [hread] at hdelivers
        cases hr
        exact ⟨img, himg, hdelivers⟩
  | reading n now a k a' k' hpc hrest =>
      rcases h.delivers n now a k hpc with ⟨img, himg, hdelivers⟩
      have hnext := hdelivers.answer (hdelivery.holds n img himg)
      -- The registers still hold the frame, so the rest of the read delivers it too.
      rw [hrest] at hnext
      refine ⟨h.queue, ?_, ?_, ?_⟩
      · intro m hm
        exact h.picked m (by rw [hpc]; exact hm)
      · intro n' now' a₁ k₁ hr
        cases hr
        exact ⟨img, himg, hnext⟩
      · rw [hregs]
        exact h.ahead
  | done n now a k x hpc hrest =>
      rcases h.delivers n now a k hpc with ⟨img, himg, hdelivers⟩
      have hx := hdelivers.answer (hdelivery.holds n img himg)
      rw [hrest] at hx
      -- The last answer completes the read: what is returned is the frame, and it is the oldest.
      have hold : oldest s.trace = some n := h.picked n (by rw [hpc]; exact beq_self_eq_true n)
      have hqueue : Queue (.returned n x now :: s.trace) := h.queue.returned hold himg hx.result
      refine ⟨hqueue, by rintro n ⟨⟩, by rintro n now a k ⟨⟩, ?_⟩
      -- One of the two buffers has just been read.
      intro hold' hone
      have hfull0 := hqueue.isSome_of_oldest hold'
      rw [isSome_unread_returned] at hfull0 hone
      cases n with
      | b0 => simp at hfull0
      | b1 => simp at hone

theorem arrive (h : s.InQueue) (hdelivery : s.Delivery mask) {img : RxImage}
    (hspaced : ∀ n ∈ s.rxTarget, unread n s.trace = none) : (s.arrive img).InQueue := by
  cases htarget : s.rxTarget with
  | none =>
      simp only [Sys.arrive, htarget]
      refine h.congr (Or.inr ⟨.dropped img, fun _ => rfl, rfl⟩) rfl rfl ?_
      intro n
      rw [getLsbD_modify_rise (by intro m; cases m <;> decide), Regs.modify_of_ne (by decide)]
  | some n =>
      have hempty := hspaced n htarget
      have hunread : ∀ m, unread m (.loaded n img :: s.trace) =
          if n = m then some img else unread m s.trace := fun _ => rfl
      simp only [Sys.arrive, htarget]
      refine ⟨h.queue.loaded hempty, ?_, ?_, ?_⟩
      · intro m hm
        exact Queue.oldest_loaded (h.picked m hm)
      · intro m now a k hr
        rcases h.delivers m now a k hr with ⟨img', himg, hdelivers⟩
        refine ⟨img', ?_, hdelivers⟩
        have hne : n ≠ m := by
          rintro rfl
          rw [hempty] at himg
          cases himg
        rw [hunread, if_neg hne]
        exact himg
      · intro hold hone
        cases n with
        | b0 =>
            -- A frame that comes to RXB0 is younger than one that waits in RXB1.
            exfalso
            rw [isSome_unread_loaded, b0_beq_b1, Bool.or_false] at hone
            rcases Option.isSome_iff_exists.1 hone with ⟨img', himg⟩
            have hold₀ : oldest s.trace = some .b1 := by
              apply h.queue.oldest_of_unread himg
              intro m hm
              cases m with
              | b0 => exact hempty
              | b1 => exact absurd rfl hm
            have hold₁ : oldest (.loaded .b0 img :: s.trace) = some .b1 :=
              Queue.oldest_loaded hold₀
            cases hold₁.symm.trans hold
        | b1 =>
            -- The flag of RXB1 rises here, and `canService` has not read it.
            have hclear := getLsbD_of_rxTarget htarget
            refine ⟨?_, ?_⟩
            · intro hsaw
              have hseen := hdelivery.counts.seen .b1 hsaw
              rw [hclear] at hseen
              cases hseen
            · intro hflag
              dsimp only at hflag
              rw [Regs.modify_self, getLsbD_set,
                show (rxFlag .b1).getLsbD 1 = true by decide, Bool.or_true] at hflag
              cases hflag

end Sys.InQueue

/-- What the steps keep that do not disturb the order; bit 0 of `mask` is that of `_pendingRxBuf`. -/
structure Sys.OrderInv (s : Sys) (mask : Byte) : Prop where
  delivery : s.Delivery mask
  shadows : s.Shadows mask
  inQueue : s.InQueue

/-- No call overtakes a frame, and no store disturbs bit 0 of `_pendingRxBuf`. -/
def Sys.KeepsOrder (s : Sys) (l : Label) : Prop :=
  s.ZeroApart l ∧ (l = .reader → ¬ s.Overtakes)

instance (s : Sys) : (l : Label) → Decidable (s.KeepsOrder l)
  | .reader =>
      decidable_of_iff (s.ZeroApart .reader ∧ ¬ s.Overtakes)
        ⟨fun h => ⟨h.1, fun _ => h.2⟩, fun h => ⟨h.1, h.2 rfl⟩⟩
  | .canService =>
      decidable_of_iff (s.ZeroApart .canService) ⟨fun h => ⟨h, nofun⟩, fun h => h.1⟩
  | .sender => isTrue ⟨trivial, nofun⟩
  | .receive _ => isTrue ⟨trivial, nofun⟩
  | .submit _ => isTrue ⟨trivial, nofun⟩
  | .irqHandler _ => isTrue ⟨trivial, nofun⟩
  | .arrive _ => isTrue ⟨trivial, nofun⟩
  | .complete => isTrue ⟨trivial, nofun⟩
  | .raise _ _ => isTrue ⟨trivial, nofun⟩

namespace Sys.OrderInv

variable {mask : Byte}

theorem step {l : Label} (h : s.OrderInv mask) (hspaced : Spaced s l) (hok : s.KeepsOrder l)
    (hstep : Sys.step l s = some t) : t.OrderInv (s.nextMask mask l) := by
  have hdelivery := h.delivery.step hspaced h.shadows.zero hstep
  have hshadows := h.shadows.step hok.1 hstep
  refine ⟨hdelivery, hshadows, ?_⟩
  rcases Option.map_eq_some_iff.1 hstep with ⟨u, hmove, rfl⟩
  have hu : u.InQueue := by
    cases l with
    -- Only the two tasks and the loads of the controller concern the order.
    | canService => exact h.inQueue.can h.delivery (canMove_of_canStep hmove)
    | reader =>
        exact h.inQueue.reader h.delivery h.shadows.zero (hok.2 rfl)
          (readerMove_of_readerStep hmove)
    | sender =>
        have hm := senderMove_of_senderStep hmove
        rcases hm.frame with ⟨hcan, hreader, -, -, htrace⟩
        have hintf : u.regs CANINTF = s.regs CANINTF :=
          h.delivery.writes.regs hm (by decide) (by decide)
        exact h.inQueue.congr (Or.inl htrace) hreader hcan fun n => by rw [hintf]
    | receive buf =>
        rcases eq_of_receive hmove with ⟨-, rfl⟩
        exact ⟨h.inQueue.queue, nofun, nofun, h.inQueue.ahead⟩
    | submit c =>
        rcases eq_of_submit hmove with ⟨-, rfl⟩
        exact h.inQueue.congr (Or.inr ⟨.submitted c, fun _ => rfl, rfl⟩) rfl rfl fun _ => rfl
    | irqHandler now =>
        rcases eq_of_irqHandler hmove with ⟨-, rfl⟩
        exact h.inQueue.congr (Or.inl rfl) rfl rfl fun _ => rfl
    | arrive img => exact Option.some.inj hmove ▸ h.inQueue.arrive h.delivery hspaced
    | complete =>
        have hc := completed_of_complete hmove
        rcases hc.parties with ⟨hcan, hreader, -⟩
        refine h.inQueue.congr (Or.inr ⟨_, fun _ => rfl, hc.trace⟩) hreader hcan ?_
        intro n
        have hflag : TX0IF.getLsbD (index n) = false := by
          cases n <;> decide
        rw [hc.flagged, hflag, Bool.or_false]
    | raise flags eflg =>
        cases hmove
        refine h.inQueue.congr (Or.inl rfl) rfl rfl ?_
        intro n
        rw [s.raise_intf, hspaced n, Bool.or_false]
  exact ⟨hu.queue, hu.picked, hu.delivers, hu.ahead⟩

theorem boot (r : Regs) : (Sys.boot r).OrderInv 0#8 :=
  ⟨.boot r, .boot r, .nil, nofun, nofun, nofun⟩

end Sys.OrderInv

/-! ## Runs -/

/-- The frames are returned in the order in which they were loaded. -/
def AlwaysInOrder : Prop :=
  ∀ (r : Regs) (ls : List Label) (t : Sys), Run Sys.step Spaced (Sys.boot r) ls t →
    InOrder t.trace

/-- Two frames, of which the first is returned; then a third, and a second call. -/
def overtakingSchedule : List Label :=
  .canService :: .arrive (oneByte 0x10#8 0x11#8) :: .arrive (oneByte 0x20#8 0x22#8) ::
    List.replicate 12 .canService ++ .receive (fun _ => 0#8) :: List.replicate 9 .reader ++
    .arrive (oneByte 0x30#8 0x33#8) :: List.replicate 8 .canService ++
    .receive (fun _ => 0#8) :: List.replicate 9 .reader

/-- The third frame is returned before the second. -/
theorem not_alwaysInOrder : ¬ AlwaysInOrder := by
  intro h
  rcases exists_run_of_exec Sys.step Spaced (Sys.boot rolloverRegs) overtakingSchedule
    (fun t => !(returned t.trace).isPrefixOf (loaded t.trace)) (by decide +kernel)
    with ⟨t, hrun, hnot⟩
  -- The third frame has been returned before the second, so what was returned is no prefix.
  have hstart := List.isPrefixOf_iff_prefix.2 (h _ _ _ hrun)
  rw [hstart] at hnot
  cases hnot

/-- In every run in which no call overtakes a frame, and the stores to the mask do not disturb its
bit 0, the frames are returned in the order in which they were loaded. -/
theorem inOrder_of_keepsOrder {r : Regs} {ls : List Label} {t : Sys}
    (h : Run Sys.step (fun s l => Spaced s l ∧ s.KeepsOrder l) (Sys.boot r) ls t) :
    InOrder t.trace := by
  have hinv : ∃ mask, t.OrderInv mask := by
    refine h.invariant (I := fun s => ∃ mask, s.OrderInv mask) ?_ ⟨_, .boot r⟩
    rintro s l u ⟨mask, hinv⟩ hok hstep
    exact ⟨_, hinv.step hok.1 hok.2 hstep⟩
  rcases hinv with ⟨mask, hinv⟩
  exact hinv.inQueue.queue.inOrder

/-- Three frames, of which the third comes when the second has been returned. -/
theorem inOrder_of_keepsOrder_three :
    ∃ t : Sys, (returned t.trace).length = 3 ∧ InOrder t.trace := by
  rcases exists_run_of_exec Sys.step (fun s l => Spaced s l ∧ s.KeepsOrder l)
    (Sys.boot rolloverRegs)
    (List.flatten
      [[.canService, .arrive (oneByte 0x10#8 0x11#8), .arrive (oneByte 0x20#8 0x22#8)],
        List.replicate 12 .canService,
        [.receive fun _ => 0#8], List.replicate 9 .reader,
        [.receive fun _ => 0#8], List.replicate 9 .reader,
        [.arrive (oneByte 0x30#8 0x33#8)], List.replicate 8 .canService,
        [.receive fun _ => 0#8], List.replicate 9 .reader])
    (fun t => (returned t.trace).length = 3) (by decide +kernel) with ⟨t, hrun, hthree⟩
  exact ⟨t, of_decide_eq_true hthree, inOrder_of_keepsOrder hrun⟩

end Mcp2515Task
end PicoCppSdk
