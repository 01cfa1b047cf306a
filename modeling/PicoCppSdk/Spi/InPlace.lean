import PicoCppSdk.Spi.Transfer

/-!
# InPlace — the two channels of a DMA transfer on one buffer

The layer below `Transfer`: the channels as `dmaConfigure` sets them up and `dmaWrite`, `dmaRead`
and `dmaStart` use them, with their address registers and counts, over a memory of bytes.

With one null pointer both channels go over the same buffer.  Seen item by item from the start of
the buffer, that is the full-duplex transfer of a buffer onto itself, which is always in time.
-/

namespace PicoCppSdk
namespace Spi
namespace InPlace

open Transition FullDuplex

/-! ## Items in memory -/

inductive DataSize where
  | size8
  | size16
  | size32
  deriving DecidableEq, Repr

namespace DataSize

def bytes : DataSize → Nat
  | .size8 => 1
  | .size16 => 2
  | .size32 => 4

/-- What a channel reads at `a`, lowest byte first. -/
def load : DataSize → (Nat → BitVec 8) → Nat → BitVec 32
  | .size8, mem, a => (mem a).setWidth 32
  | .size16, mem, a => (mem (a + 1) ++ mem a).setWidth 32
  | .size32, mem, a => mem (a + 3) ++ mem (a + 2) ++ mem (a + 1) ++ mem a

/-- The memory after a channel has written `v` at `a`. -/
def store (d : DataSize) (mem : Nat → BitVec 8) (a : Nat) (v : BitVec 32) : Nat → BitVec 8 :=
  fun b => if a ≤ b ∧ b < a + d.bytes then v.extractLsb' (8 * (b - a)) 8 else mem b

end DataSize

/-- The size of the items, as `dmaConfigure` chooses it. -/
def dataSize : (data16Bits : Bool) → DataSize
  | true => .size16
  | false => .size8

/-- The item at address `a`. -/
def itemAt (data16Bits : Bool) (mem : Nat → BitVec 8) (a : Nat) : Word data16Bits :=
  ((dataSize data16Bits).load mem a).setWidth (wordBits data16Bits)

/-- Item `i` of the buffer at `p`. -/
def item (data16Bits : Bool) (mem : Nat → BitVec 8) (p i : Nat) : Word data16Bits :=
  itemAt data16Bits mem (p + i * (dataSize data16Bits).bytes)

section Items

variable {data16Bits : Bool} (mem : Nat → BitVec 8) (p a : Nat)

theorem store_of_inside {d : DataSize} {v : BitVec 32} {k : Nat} (hk : k < d.bytes) :
    d.store mem a v (a + k) = v.extractLsb' (8 * k) 8 := by
  rw [DataSize.store, if_pos ⟨Nat.le_add_right a k, Nat.add_lt_add_left hk a⟩,
    Nat.add_sub_cancel_left]

theorem store_of_outside {d : DataSize} {v : BitVec 32} {b : Nat}
    (h : b < a ∨ a + d.bytes ≤ b) : d.store mem a v b = mem b := by
  refine if_neg fun hin => ?_
  omega

/-- An item depends on its own bytes only. -/
theorem itemAt_congr {mem mem' : Nat → BitVec 8}
    (h : ∀ k, k < (dataSize data16Bits).bytes → mem' (a + k) = mem (a + k)) :
    itemAt data16Bits mem' a = itemAt data16Bits mem a := by
  cases data16Bits with
  | false =>
      have h0 : mem' a = mem a := h 0 (by decide)
      simp only [itemAt, dataSize, DataSize.load, h0]
  | true =>
      have h0 : mem' a = mem a := h 0 (by decide)
      have h1 : mem' (a + 1) = mem (a + 1) := h 1 (by decide)
      simp only [itemAt, dataSize, DataSize.load, h0, h1]

theorem itemAt_store (w : Word data16Bits) :
    itemAt data16Bits ((dataSize data16Bits).store mem a (w.setWidth 32)) a = w := by
  refine BitVec.eq_of_getLsbD_eq fun i hi => ?_
  cases data16Bits with
  | false =>
      have h0 := store_of_inside mem a (d := .size8) (v := w.setWidth 32) (k := 0) (by decide)
      simp only [Nat.add_zero] at h0
      simp only [itemAt, dataSize, DataSize.load, h0, BitVec.getLsbD_setWidth,
        BitVec.getLsbD_extractLsb']
      have hi8 : i < 8 := hi
      have hi32 : i < 32 := by omega
      simp [hi8, hi32]
  | true =>
      have h0 := store_of_inside mem a (d := .size16) (v := w.setWidth 32) (k := 0) (by decide)
      have h1 := store_of_inside mem a (d := .size16) (v := w.setWidth 32) (k := 1) (by decide)
      simp only [Nat.add_zero] at h0
      simp only [itemAt, dataSize, DataSize.load, h0, h1, BitVec.getLsbD_setWidth,
        BitVec.getLsbD_append, BitVec.getLsbD_extractLsb']
      have hi16 : i < 16 := hi
      have hi32 : i < 32 := by omega
      by_cases hi8 : i < 8
      · simp [hi8, hi16, hi32]
      · have hhigh : i - 8 < 8 := by omega
        have hback : 8 + (i - 8) = i := by omega
        simp [hi8, hi16, hi32, hhigh, hback]

/-- The items of a buffer do not overlap. -/
theorem item_store (i j : Nat) (w : Word data16Bits) :
    item data16Bits ((dataSize data16Bits).store mem (p + j * (dataSize data16Bits).bytes)
        (w.setWidth 32)) p i =
      if i = j then w else item data16Bits mem p i := by
  by_cases hij : i = j
  · rw [if_pos hij, hij]
    exact itemAt_store mem _ w
  · rw [if_neg hij]
    refine itemAt_congr _ fun k hk => store_of_outside mem _ ?_
    -- The items `i` and `j` are at least the size of one apart.
    cases data16Bits <;> simp only [dataSize, DataSize.bytes] at hk ⊢ <;> omega

end Items

/-! ## The channels -/

/-- The request signal that paces a channel. -/
inductive Dreq where
  | spiTx
  | spiRx
  | force
  deriving DecidableEq, Repr

/-- `dma_channel_config`, as far as `dmaConfigure` sets it. -/
structure ChannelConfig where
  dataSize : DataSize
  dreq : Dreq
  readIncrement : Bool
  writeIncrement : Bool

/-- A pointer, or the given distance behind the data register of the SPI block. -/
inductive Addr where
  | memory (p : Option Nat)
  | dr (offset : Nat)

structure Channel where
  config : ChannelConfig
  readAddr : Addr
  writeAddr : Addr
  count : Nat
  started : Bool

/-- An address after a beat. -/
def Addr.next (increment : Bool) (d : DataSize) : Addr → Addr
  | .memory (some p) => .memory (some (if increment then p + d.bytes else p))
  | .memory none => .memory none
  | .dr offset => .dr (if increment then offset + d.bytes else offset)

def Channel.next (c : Channel) : Channel where
  config := c.config
  readAddr := c.readAddr.next c.config.readIncrement c.config.dataSize
  writeAddr := c.writeAddr.next c.config.writeIncrement c.config.dataSize
  count := c.count - 1
  started := c.started

structure Sys (data16Bits : Bool) (σ : Type) where
  mem : Nat → BitVec 8
  dmaTx : Channel
  dmaRx : Channel
  txFifo : List (Word data16Bits)
  rxFifo : List (Word data16Bits)
  dev : σ
  /-- The items sent and received so far. -/
  mosi : List (Word data16Bits)
  miso : List (Word data16Bits)
  /-- An access through a null pointer, or to a register other than the data register. -/
  fault : Bool

section Code

variable {data16Bits : Bool} {σ : Type}

/-- `dmaTxConfig`; `defaultConfig` is what `dma_channel_get_default_config` returns. -/
def dmaTxConfig (defaultConfig : ChannelConfig) (data16Bits : Bool) : ChannelConfig :=
  { defaultConfig with
    dataSize := dataSize data16Bits
    dreq := .spiTx }

def dmaRxConfig (defaultConfig : ChannelConfig) (data16Bits : Bool) : ChannelConfig :=
  { defaultConfig with
    dataSize := dataSize data16Bits
    dreq := .spiRx
    readIncrement := false
    writeIncrement := true }

def dmaConfigure (defaultConfig : ChannelConfig) (s : Sys data16Bits σ) : Sys data16Bits σ :=
  { s with
    dmaTx :=
      { config := dmaTxConfig defaultConfig data16Bits
        readAddr := .memory none
        writeAddr := .dr 0
        count := 0
        started := false }
    dmaRx :=
      { config := dmaRxConfig defaultConfig data16Bits
        readAddr := .dr 0
        writeAddr := .memory none
        count := 0
        started := false } }

def dmaWrite (data : Option Nat) (size : Nat) (s : Sys data16Bits σ) : Sys data16Bits σ :=
  { s with dmaTx := { s.dmaTx with readAddr := .memory data, count := size } }

def dmaRead (data : Option Nat) (size : Nat) (s : Sys data16Bits σ) : Sys data16Bits σ :=
  { s with dmaRx := { s.dmaRx with writeAddr := .memory data, count := size } }

def dmaStart (s : Sys data16Bits σ) : Sys data16Bits σ :=
  { s with
    dmaTx := { s.dmaTx with started := true }
    dmaRx := { s.dmaRx with started := true } }

/-- `SPI::transfer` up to the waits for the two channels. -/
def transfer (tx rx : Option Nat) (size : Nat) (s : Sys data16Bits σ) : Sys data16Bits σ :=
  dmaStart (dmaRead (if rx = none then tx else rx) size
    (dmaWrite (if tx = none then rx else tx) size s))

/-- Before `dmaConfigure`. -/
def boot (mem : Nat → BitVec 8) (d : σ) : Sys data16Bits σ where
  mem := mem
  dmaTx := ⟨⟨.size32, .force, false, false⟩, .memory none, .memory none, 0, false⟩
  dmaRx := ⟨⟨.size32, .force, false, false⟩, .memory none, .memory none, 0, false⟩
  txFifo := []
  rxFifo := []
  dev := d
  mosi := []
  miso := []
  fault := false

end Code

/-! ## Beats -/

namespace Sys

variable {data16Bits : Bool} {σ : Type}

def requests (s : Sys data16Bits σ) : Dreq → Bool
  | .spiTx => decide (s.txFifo.length < fifoDepth)
  | .spiRx => !s.rxFifo.isEmpty
  | .force => true

/-- What a channel reads; nothing comes from an empty FIFO. -/
def fetch (s : Sys data16Bits σ) (d : DataSize) :
    Addr → Option (BitVec 32 × Sys data16Bits σ)
  | .memory (some p) => some (d.load s.mem p, s)
  | .dr 0 =>
      match s.rxFifo with
      | [] => none
      | w :: ws => some (w.setWidth 32, { s with rxFifo := ws })
  | _ => some (0#32, { s with fault := true })

def deliver (s : Sys data16Bits σ) (d : DataSize) (v : BitVec 32) : Addr → Sys data16Bits σ
  | .memory (some p) => { s with mem := d.store s.mem p v }
  | .dr 0 => { s with txFifo := s.txFifo ++ [v.setWidth (wordBits data16Bits)] }
  | _ => { s with fault := true }

/-- The beat of a channel, and the channel after it. -/
def beat (s : Sys data16Bits σ) (c : Channel) : Option (Channel × Sys data16Bits σ) :=
  if s.fault = false ∧ c.started = true ∧ 0 < c.count ∧ s.requests c.config.dreq = true then
    (s.fetch c.config.dataSize c.readAddr).map fun vs =>
      (c.next, vs.2.deliver c.config.dataSize vs.1 c.writeAddr)
  else
    none

/-- One item goes out, and the answer of the device comes in. -/
def shift (respond : σ → Word data16Bits → Word data16Bits × σ) (s : Sys data16Bits σ) :
    Option (Sys data16Bits σ) :=
  match s.txFifo with
  | [] => none
  | w :: ws =>
      if s.fault = false ∧ s.rxFifo.length < fifoDepth then
        some { s with
          dev := (respond s.dev w).2
          txFifo := ws
          rxFifo := s.rxFifo ++ [(respond s.dev w).1]
          mosi := s.mosi ++ [w]
          miso := s.miso ++ [(respond s.dev w).1] }
      else
        none

def step (respond : σ → Word data16Bits → Word data16Bits × σ) :
    Beat → Sys data16Bits σ → Option (Sys data16Bits σ)
  | .read, s => (s.beat s.dmaTx).map fun cs => { cs.2 with dmaTx := cs.1 }
  | .shift, s => s.shift respond
  | .store, s => (s.beat s.dmaRx).map fun cs => { cs.2 with dmaRx := cs.1 }

/-- Both channels have finished. -/
def Finished (s : Sys data16Bits σ) : Prop :=
  s.dmaTx.count = 0 ∧ s.dmaRx.count = 0

/-- Configured, and no item under way; what is sent and received counts from here. -/
structure Ready (defaultConfig : ChannelConfig) (s : Sys data16Bits σ) : Prop where
  txConfig : s.dmaTx.config = dmaTxConfig defaultConfig data16Bits
  txWrite : s.dmaTx.writeAddr = .dr 0
  rxConfig : s.dmaRx.config = dmaRxConfig defaultConfig data16Bits
  rxRead : s.dmaRx.readAddr = .dr 0
  txFifo : s.txFifo = []
  rxFifo : s.rxFifo = []
  mosi : s.mosi = []
  miso : s.miso = []
  running : s.fault = false

end Sys

/-! ## The transfer as a full-duplex transfer -/

theorem ready_dmaConfigure {data16Bits : Bool} {σ : Type} (defaultConfig : ChannelConfig)
    (mem : Nat → BitVec 8) (d : σ) :
    (dmaConfigure defaultConfig (boot mem d) : Sys data16Bits σ).Ready defaultConfig where
  txConfig := rfl
  txWrite := rfl
  rxConfig := rfl
  rxRead := rfl
  txFifo := rfl
  rxFifo := rfl
  mosi := rfl
  miso := rfl
  running := rfl

section Refinement

variable {data16Bits : Bool} {σ : Type} {respond : σ → Word data16Bits → Word data16Bits × σ}
  {defaultConfig : ChannelConfig} {p size : Nat} {mem : Nat → BitVec 8} {d : σ}
  {s t : Sys data16Bits σ}

/-- The items of the buffer, and how many of them the channels have dealt with. -/
def view (p size : Nat) (s : Sys data16Bits σ) : State (Word data16Bits) σ where
  mem := item data16Bits s.mem p
  dev := s.dev
  txPos := size - s.dmaTx.count
  rxPos := size - s.dmaRx.count
  txFifo := s.txFifo
  rxFifo := s.rxFifo
  mosi := s.mosi
  fault := s.fault

/-- Both channels are on the buffer at `p`, each as far as its count says; `mem` and `d` are what
the memory and the device were at the start. -/
structure OnBuffer (respond : σ → Word data16Bits → Word data16Bits × σ)
    (defaultConfig : ChannelConfig) (p size : Nat) (mem : Nat → BitVec 8) (d : σ)
    (s : Sys data16Bits σ) : Prop where
  txConfig : s.dmaTx.config = dmaTxConfig defaultConfig data16Bits
  txStarted : s.dmaTx.started = true
  txRead : s.dmaTx.readAddr =
    .memory (some (p + (size - s.dmaTx.count) * (dataSize data16Bits).bytes))
  txWrite : s.dmaTx.writeAddr = .dr 0
  txCount : s.dmaTx.count ≤ size
  rxConfig : s.dmaRx.config = dmaRxConfig defaultConfig data16Bits
  rxStarted : s.dmaRx.started = true
  rxRead : s.dmaRx.readAddr = .dr 0
  rxWrite : s.dmaRx.writeAddr =
    .memory (some (p + (size - s.dmaRx.count) * (dataSize data16Bits).bytes))
  rxCount : s.dmaRx.count ≤ size
  running : s.fault = false
  miso : s.miso = (respondAll respond d s.mosi).1
  dev : s.dev = (respondAll respond d s.mosi).2
  frame : ∀ a, a < p ∨ p + size * (dataSize data16Bits).bytes ≤ a → s.mem a = mem a

namespace OnBuffer

theorem beat_tx (h : OnBuffer respond defaultConfig p size mem d s) :
    s.beat s.dmaTx =
      if 0 < s.dmaTx.count ∧ s.txFifo.length < fifoDepth then
        some (s.dmaTx.next,
          { s with txFifo := s.txFifo ++ [item data16Bits s.mem p (size - s.dmaTx.count)] })
      else
        none := by
  simp only [Sys.beat, h.running, h.txStarted, h.txConfig, dmaTxConfig, Sys.requests,
    decide_eq_true_eq, true_and, h.txRead, h.txWrite, Sys.fetch, Option.map_some, Sys.deliver]
  rfl

theorem beat_rx (h : OnBuffer respond defaultConfig p size mem d s) {w : Word data16Bits}
    {ws : List (Word data16Bits)} (hfifo : s.rxFifo = w :: ws) :
    s.beat s.dmaRx =
      if 0 < s.dmaRx.count then
        some (s.dmaRx.next,
          { s with
            rxFifo := ws
            mem := (dataSize data16Bits).store s.mem
              (p + (size - s.dmaRx.count) * (dataSize data16Bits).bytes) (w.setWidth 32) })
      else
        none := by
  simp only [Sys.beat, h.running, h.rxStarted, h.rxConfig, dmaRxConfig, Sys.requests, hfifo,
    List.isEmpty_cons, Bool.not_false, true_and, and_true, h.rxRead, h.rxWrite, Sys.fetch,
    Option.map_some, Sys.deliver]

theorem beat_rx_of_empty (h : OnBuffer respond defaultConfig p size mem d s)
    (hfifo : s.rxFifo = []) : s.beat s.dmaRx = none := by
  simp [Sys.beat, h.rxConfig, dmaRxConfig, Sys.requests, hfifo]

/-- The next position of a channel that is not at its end. -/
theorem pos_next {c : Nat} (hpos : 0 < c) (hle : c ≤ size) : size - (c - 1) = size - c + 1 := by
  omega

theorem map_read (h : OnBuffer respond defaultConfig p size mem d s) :
    (s.step respond .read).map (view p size) =
      FullDuplex.step respond fifoDepth (between 0 0 size) .read (view p size s) := by
  rw [step_read, Sys.step, h.beat_tx]
  have hcount := h.txCount
  by_cases hguard : 0 < s.dmaTx.count ∧ s.txFifo.length < fifoDepth
  -- The channel counts down where the transfer counts up.
  · have hlt : size - s.dmaTx.count < size := by omega
    rw [if_pos hguard, if_pos ⟨h.running, hlt, hguard.2⟩]
    simp only [Option.map_some, view, Channel.next, pos_next hguard.1 hcount, Nat.zero_add]
  · rw [if_neg hguard, if_neg]
    · rfl
    · rintro ⟨_, hlt, hfifo⟩
      refine hguard ⟨?_, hfifo⟩
      simp only [view] at hlt
      omega

theorem map_shift : (s.step respond .shift).map (view p size) =
    FullDuplex.step respond fifoDepth (between 0 0 size) .shift (view p size s) := by
  simp only [Sys.step, Sys.shift, FullDuplex.step, view]
  cases s.txFifo with
  | nil => rfl
  | cons w ws =>
      dsimp only
      by_cases hguard : s.fault = false ∧ s.rxFifo.length < fifoDepth
      · rw [if_pos hguard]
        exact (if_pos hguard).symm
      · rw [if_neg hguard]
        exact (if_neg hguard).symm

theorem map_store (h : OnBuffer respond defaultConfig p size mem d s) :
    (s.step respond .store).map (view p size) =
      FullDuplex.step respond fifoDepth (between 0 0 size) .store (view p size s) := by
  have hcount := h.rxCount
  cases hfifo : s.rxFifo with
  | nil =>
      rw [Sys.step, h.beat_rx_of_empty hfifo]
      simp only [FullDuplex.step, view, hfifo, Option.map_none]
  | cons w ws =>
      have hview : (view p size s).rxFifo = w :: ws := hfifo
      rw [step_store hview, Sys.step, h.beat_rx hfifo]
      by_cases hpos : 0 < s.dmaRx.count
      · have hlt : size - s.dmaRx.count < size := by omega
        rw [if_pos hpos, if_pos ⟨h.running, hlt⟩]
        -- The bytes of one item are stored, so one item of the view changes.
        have hmem : item data16Bits ((dataSize data16Bits).store s.mem
            (p + (size - s.dmaRx.count) * (dataSize data16Bits).bytes) (w.setWidth 32)) p =
            Function.update (item data16Bits s.mem p) (size - s.dmaRx.count) w := by
          funext i
          rw [item_store, Function.update_apply]
        simp only [Option.map_some, view, Channel.next, pos_next hpos hcount, Nat.zero_add, hmem]
      · rw [if_neg hpos, if_neg]
        · rfl
        · rintro ⟨_, hlt⟩
          simp only [view] at hlt
          omega

/-- A position of the buffer is behind the one before it. -/
theorem addr_next {c : Nat} {q : Nat} (hpos : 0 < c) (hle : c ≤ size) :
    p + (size - c) * q + q = p + (size - (c - 1)) * q := by
  rw [pos_next hpos hle, Nat.add_mul, Nat.one_mul, Nat.add_assoc]

theorem keeps_read (hread : defaultConfig.readIncrement = true)
    (hwrite : defaultConfig.writeIncrement = false)
    (h : OnBuffer respond defaultConfig p size mem d s) (hstep : s.step respond .read = some t) :
    OnBuffer respond defaultConfig p size mem d t := by
  rw [Sys.step, h.beat_tx] at hstep
  split at hstep
  · rename_i hguard
    cases hstep
    refine { h with txRead := ?_, txWrite := ?_, txCount := ?_ }
    · -- The transmit channel goes along the buffer, as the default configuration has it.
      simp only [Channel.next, h.txRead, h.txConfig, dmaTxConfig, hread, Addr.next, if_true,
        addr_next hguard.1 h.txCount]
    · simp only [Channel.next, h.txWrite, h.txConfig, dmaTxConfig, hwrite, Addr.next,
        Bool.false_eq_true, if_false]
    · exact Nat.le_trans (Nat.sub_le _ _) h.txCount
  · cases hstep

theorem keeps_shift (h : OnBuffer respond defaultConfig p size mem d s)
    (hstep : s.step respond .shift = some t) :
    OnBuffer respond defaultConfig p size mem d t := by
  simp only [Sys.step, Sys.shift] at hstep
  split at hstep
  · cases hstep
  · rename_i w ws hfifo
    split at hstep
    · cases hstep
      refine { h with miso := ?_, dev := ?_ }
      · rw [respondAll_append, ← h.dev, h.miso]
        rfl
      · rw [respondAll_append, ← h.dev]
        rfl
    · cases hstep

theorem keeps_store (h : OnBuffer respond defaultConfig p size mem d s)
    (hstep : s.step respond .store = some t) :
    OnBuffer respond defaultConfig p size mem d t := by
  cases hfifo : s.rxFifo with
  | nil =>
      rw [Sys.step, h.beat_rx_of_empty hfifo] at hstep
      cases hstep
  | cons w ws =>
      rw [Sys.step, h.beat_rx hfifo] at hstep
      split at hstep
      · rename_i hpos
        cases hstep
        refine { h with rxRead := ?_, rxWrite := ?_, rxCount := ?_, frame := ?_ }
        · simp only [Channel.next, h.rxRead, h.rxConfig, dmaRxConfig, Addr.next,
            Bool.false_eq_true, if_false]
        · simp only [Channel.next, h.rxWrite, h.rxConfig, dmaRxConfig, Addr.next, if_true,
            addr_next hpos h.rxCount]
        · exact Nat.le_trans (Nat.sub_le _ _) h.rxCount
        · intro a ha
          refine (store_of_outside s.mem _ ?_).trans (h.frame a ha)
          -- The item that is stored is one of the buffer.
          have hend := addr_next (p := p) (q := (dataSize data16Bits).bytes) hpos h.rxCount
          have hle := Nat.mul_le_mul_right (dataSize data16Bits).bytes
            (Nat.sub_le size (s.dmaRx.count - 1))
          omega
      · cases hstep

/-- Item by item, the two channels on one buffer are a full-duplex transfer onto itself. -/
theorem views (hread : defaultConfig.readIncrement = true)
    (hwrite : defaultConfig.writeIncrement = false) :
    Views (Sys.step respond) (FullDuplex.step respond fifoDepth (between 0 0 size))
      (OnBuffer respond defaultConfig p size mem d) (view p size) where
  map_step s b h := by
    cases b with
    | read => exact h.map_read
    | shift => exact map_shift
    | store => exact h.map_store
  keeps s b t h hstep := by
    cases b with
    | read => exact h.keeps_read hread hwrite hstep
    | shift => exact h.keeps_shift hstep
    | store => exact h.keeps_store hstep

end OnBuffer

/-- The one buffer of the call, where one of the two pointers is null. -/
inductive OneBuffer : (tx rx : Option Nat) → (p : Nat) → Prop where
  | tx (p : Nat) : OneBuffer (some p) none p
  | rx (p : Nat) : OneBuffer none (some p) p

theorem OneBuffer.setup {tx rx : Option Nat} (h : OneBuffer tx rx p) :
    Spi.transfer true (tx.map fun _ => 0) (rx.map fun _ => 0) size = between 0 0 size := by
  cases h with
  | tx p => exact transfer_dma_tx
  | rx p => exact transfer_dma_rx

/-- The registers of the two channels refine the transfer that is started with one null pointer. -/
theorem OneBuffer.views {tx rx : Option Nat} (h : OneBuffer tx rx p)
    (hread : defaultConfig.readIncrement = true) (hwrite : defaultConfig.writeIncrement = false) :
    Views (Sys.step respond)
      (transferStep respond true (tx.map fun _ => 0) (rx.map fun _ => 0) size)
      (OnBuffer respond defaultConfig p size mem d) (view p size) := by
  rw [transferStep, h.setup]
  exact OnBuffer.views hread hwrite

theorem transfer_oneBuffer {tx rx : Option Nat} (h : OneBuffer tx rx p) :
    transfer tx rx size s = dmaStart (dmaRead (some p) size (dmaWrite (some p) size s)) := by
  cases h <;> rfl

theorem onBuffer_transfer {tx rx : Option Nat} (hbuf : OneBuffer tx rx p)
    (hs : s.Ready defaultConfig) :
    OnBuffer respond defaultConfig p size s.mem s.dev (transfer tx rx size s) ∧
      view p size (transfer tx rx size s) = start (item data16Bits s.mem p) s.dev := by
  rw [transfer_oneBuffer hbuf]
  -- Both address registers are at the start of the buffer, with the whole count to come.
  refine ⟨?_, ?_⟩
  · exact
      { txConfig := hs.txConfig
        txStarted := rfl
        txRead := by simp [dmaStart, dmaRead, dmaWrite]
        txWrite := hs.txWrite
        txCount := Nat.le_refl size
        rxConfig := hs.rxConfig
        rxStarted := rfl
        rxRead := hs.rxRead
        rxWrite := by simp [dmaStart, dmaRead, dmaWrite]
        rxCount := Nat.le_refl size
        running := hs.running
        miso := by
          show s.miso = (respondAll respond s.dev s.mosi).1
          rw [hs.miso, hs.mosi]
          rfl
        dev := by
          show s.dev = (respondAll respond s.dev s.mosi).2
          rw [hs.mosi]
          rfl
        frame := fun _ _ => rfl }
  · simp [view, start, dmaStart, dmaRead, dmaWrite, hs.txFifo, hs.rxFifo, hs.mosi, hs.running]

end Refinement

/-! ## The property -/

/-- The items of a buffer. -/
def items (data16Bits : Bool) (mem : Nat → BitVec 8) (p size : Nat) : List (Word data16Bits) :=
  (List.range size).map (item data16Bits mem p)

/-- A transfer of the buffer at `p` that was started in `s` and has come to `t`. -/
structure Safe {data16Bits : Bool} {σ : Type} (defaultConfig : ChannelConfig) (p size : Nat)
    (s t : Sys data16Bits σ) : Prop where
  /-- Item `i` on MOSI is item `i` of the buffer as it was at the start. -/
  sent : ∀ i w, t.mosi[i]? = some w → i < size ∧ w = item data16Bits s.mem p i
  finished : t.Finished →
    t.mosi = items data16Bits s.mem p size ∧ items data16Bits t.mem p size = t.miso
  frame : ∀ a, a < p ∨ p + size * (dataSize data16Bits).bytes ≤ a → t.mem a = s.mem a
  running : t.fault = false
  /-- The next transfer finds the channels as this one has. -/
  again : t.Finished → { t with mosi := [], miso := [] }.Ready defaultConfig

theorem words_item (data16Bits : Bool) (mem : Nat → BitVec 8) (p size : Nat) :
    words (item data16Bits mem p) 0 size = items data16Bits mem p size := by
  refine List.map_congr_left fun i _ => ?_
  rw [Nat.zero_add]

section Safe

variable {data16Bits : Bool} {σ : Type} {respond : σ → Word data16Bits → Word data16Bits × σ}
  {defaultConfig : ChannelConfig} {p size : Nat} {tx rx : Option Nat} {s t : Sys data16Bits σ}

/-- A channel is at its end when its count is. -/
theorem OnBuffer.done_iff {mem : Nat → BitVec 8} {d : σ}
    (h : OnBuffer respond defaultConfig p size mem d t) :
    (view p size t).Done (between 0 0 size) ↔ t.Finished := by
  have htx := h.txCount
  have hrx := h.rxCount
  have hrunning := h.running
  simp only [State.Done, view, between, Sys.Finished, hrunning, true_and]
  omega

theorem OnBuffer.safe {mem : Nat → BitVec 8} {d : σ} {stored : List (Word data16Bits)}
    (hmem : mem = s.mem) (h : OnBuffer respond defaultConfig p size mem d t)
    (hu : Underway respond 0 0 size (item data16Bits mem p) d (view p size t) stored) :
    Safe defaultConfig p size s t where
  sent i w hw := by
    have hi : i < t.mosi.length := (List.getElem?_eq_some_iff.1 hw).1
    have hpos : i < (view p size t).txPos := by
      have hlen : t.mosi.length + t.txFifo.length = (view p size t).txPos := hu.sent_length
      omega
    have hget : (t.mosi ++ t.txFifo)[i]? = some (item data16Bits mem p (0 + i)) := by
      rw [show t.mosi ++ t.txFifo = _ from hu.sent]
      exact getElem?_words _ 0 _ hpos
    rw [List.getElem?_append_left hi, hw, Nat.zero_add, hmem] at hget
    exact ⟨Nat.lt_of_lt_of_le hpos hu.bound, Option.some.inj hget⟩
  finished hdone := by
    rcases hu.result (h.done_iff.2 hdone) with ⟨hmosi, _, hstored⟩
    have hmosi' : t.mosi = items data16Bits mem p size := by
      rw [← words_item]
      exact hmosi
    refine ⟨hmem ▸ hmosi', ?_⟩
    calc items data16Bits t.mem p size
        = words (view p size t).mem 0 size := (words_item data16Bits t.mem p size).symm
      _ = (respondAll respond d (words (item data16Bits mem p) 0 size)).1 := by
            rw [hstored, words_storeAnswers]
      _ = (respondAll respond d t.mosi).1 := by rw [hmosi', words_item]
      _ = t.miso := h.miso.symm
  frame a ha := by
    rw [h.frame a ha, hmem]
  running := h.running
  again hdone := by
    -- Both counts are at 0, so all that was sent has been answered and stored.
    rcases h.done_iff.2 hdone with ⟨_, htx, hrx⟩
    have htx' : (view p size t).txPos = size := htx
    have hrx' : (view p size t).rxPos = size := hrx
    have hsent : t.mosi.length + t.txFifo.length = (view p size t).txPos := hu.sent_length
    have hreceived : (view p size t).rxPos + t.rxFifo.length = t.mosi.length := hu.received_length
    have htxFifo : t.txFifo = [] := List.eq_nil_of_length_eq_zero (by omega)
    have hrxFifo : t.rxFifo = [] := List.eq_nil_of_length_eq_zero (by omega)
    exact
      { txConfig := h.txConfig
        txWrite := h.txWrite
        rxConfig := h.rxConfig
        rxRead := h.rxRead
        txFifo := htxFifo
        rxFifo := hrxFifo
        mosi := rfl
        miso := rfl
        running := h.running }

/-- A transfer with one null pointer comes to its end, whatever the order of its beats, and is safe
at every point. -/
theorem transfer_safe (hread : defaultConfig.readIncrement = true)
    (hwrite : defaultConfig.writeIncrement = false) (hbuf : OneBuffer tx rx p)
    (hs : s.Ready defaultConfig) :
    Completes (Sys.step respond) Sys.Finished (transfer tx rx size s) ∧
      ∀ t, Reachable (Sys.step respond) (transfer tx rx size s) t →
        Safe defaultConfig p size s t := by
  have hstarted : OnBuffer respond defaultConfig p size s.mem s.dev (transfer tx rx size s) ∧
      view p size (transfer tx rx size s) = start (item data16Bits s.mem p) s.dev :=
    onBuffer_transfer hbuf hs
  rcases hstarted with ⟨hon, hstart⟩
  have hviews : Views (Sys.step respond) (FullDuplex.step respond fifoDepth (between 0 0 size))
      (OnBuffer respond defaultConfig p size s.mem s.dev) (view p size) := by
    rw [← hbuf.setup]
    exact hbuf.views hread hwrite
  have hreach : ∀ t, Reachable (Sys.step respond) (transfer tx rx size s) t →
      OnBuffer respond defaultConfig p size s.mem s.dev t ∧
        Reachable (FullDuplex.step respond fifoDepth (between 0 0 size))
          (start (item data16Bits s.mem p) s.dev) (view p size t) := by
    intro t ht
    rw [← hstart]
    exact ht.views hviews hon
  constructor
  · have hcompletes : Completes (FullDuplex.step respond fifoDepth (between 0 0 size))
        (State.Done (between 0 0 size)) (view p size (transfer tx rx size s)) := by
      rw [hstart]
      exact completes (by decide) (inTime_self 0 size)
    -- The channels end because the transfer that they are seen as does.
    have hdone := hcompletes.of_views hviews hon
    exact ⟨hdone.bounded, fun t ht hstuck => (hreach t ht).1.done_iff.1 (hdone.stops t ht hstuck)⟩
  · intro t ht
    rcases hreach t ht with ⟨hon', hreach'⟩
    rcases underway_of_reachable (inTime_self 0 size) hreach' with ⟨stored, hu⟩
    exact hon'.safe rfl hu

end Safe

/-- The configuration of a channel that nothing has been set for. -/
def incrementingRead : ChannelConfig := ⟨.size32, .force, true, false⟩

/-- The SPI block with items of 16 bits, configured, and a device that counts. -/
def halfwords : Sys true Nat :=
  dmaConfigure incrementingRead (boot (BitVec.ofNat 8) 0)

theorem transfer_safe_three :
    Completes (Sys.step fun d _ => (BitVec.ofNat 16 d, d + 1)) Sys.Finished
        (transfer (some 8) none 3 halfwords) ∧
      ∀ t, Reachable (Sys.step fun d _ => (BitVec.ofNat 16 d, d + 1))
          (transfer (some 8) none 3 halfwords) t →
        Safe incrementingRead 8 3 halfwords t :=
  transfer_safe rfl rfl (.tx 8) (ready_dmaConfigure incrementingRead _ _)

end InPlace
end Spi
end PicoCppSdk
