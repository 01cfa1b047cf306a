import Mathlib.Data.List.Induction
import Mathlib.Logic.Function.Basic

/-!
# Registration — `gpio.cpp`, callbacks and enabled events of the pins

A registration replaces the callback of its pin and adds to the enabled events; taking it back
removes the callback and leaves the events.  So the callback is the one of the last registration,
and the events are those of all of them: who wants fewer has to disable them himself, with
`gpio_set_irq_enabled`, as the header says.
-/

namespace PicoCppSdk
namespace Gpio

/-! ## State -/

def kNumGpios : Nat := 30

/-- The table of the file, and what the SDK and the hardware hold. -/
structure Sys (Fn : Type) where
  /-- A `std::function` may be empty. -/
  pinCallbacks : Fin kNumGpios → Option Fn
  /-- `gpio_set_irq_callback` has been given `irqDispatcher`. -/
  installed : Bool
  /-- `IO_IRQ_BANK0` -/
  bankEnabled : Bool
  enabled : Nat → BitVec 32

variable {Fn : Type}

/-- A call of a callback, with its two arguments. -/
structure Made (Fn : Type) where
  callback : Fn
  gpio : Nat
  events : BitVec 32

/-! ## The code -/

def irqDispatcher (s : Sys Fn) (gpio : Nat) (events : BitVec 32) : Option (Made Fn) :=
  if h : gpio < kNumGpios then
    (s.pinCallbacks ⟨gpio, h⟩).map fun f => ⟨f, gpio, events⟩
  else
    none

/-- `gpio_set_irq_enabled(pin, events, true)` -/
def gpioSetIrqEnabled (s : Sys Fn) (pin : Nat) (events : BitVec 32) : Sys Fn :=
  { s with enabled := Function.update s.enabled pin (s.enabled pin ||| events) }

def gpioRegisterIrqCallback (s : Sys Fn) (pin : Nat) (events : BitVec 32)
    (callback : Option Fn) : Sys Fn :=
  if h : pin < kNumGpios then
    -- The callback is replaced; what earlier registrations have enabled is not taken back.
    let s := { s with
      pinCallbacks := Function.update s.pinCallbacks ⟨pin, h⟩ callback
      installed := true
      bankEnabled := true }
    gpioSetIrqEnabled s pin events
  else
    s

def gpioUnregisterIrqCallback (s : Sys Fn) (pin : Nat) : Sys Fn :=
  if h : pin < kNumGpios then
    -- The events of the pin stay enabled.
    { s with pinCallbacks := Function.update s.pinCallbacks ⟨pin, h⟩ none }
  else
    s

namespace Sys

/-- Events are raised on a pin: the SDK hands those that are enabled to the installed callback. -/
def interrupt (s : Sys Fn) (gpio : Nat) (raised : BitVec 32) : Option (Made Fn) :=
  if s.bankEnabled = true ∧ s.installed = true ∧ raised &&& s.enabled gpio ≠ 0#32 then
    irqDispatcher s gpio (raised &&& s.enabled gpio)
  else
    none

def boot : Sys Fn where
  pinCallbacks _ := none
  installed := false
  bankEnabled := false
  enabled _ := 0#32

end Sys

/-! ## Sequences of calls -/

inductive Call (Fn : Type) where
  | register (pin : Nat) (events : BitVec 32) (callback : Option Fn)
  | unregister (pin : Nat)

namespace Call

def pin : Call Fn → Nat
  | .register pin _ _ => pin
  | .unregister pin => pin

def events : Call Fn → BitVec 32
  | .register _ events _ => events
  | .unregister _ => 0#32

def callback : Call Fn → Option Fn
  | .register _ _ callback => callback
  | .unregister _ => none

def step (s : Sys Fn) : Call Fn → Sys Fn
  | .register pin events callback => gpioRegisterIrqCallback s pin events callback
  | .unregister pin => gpioUnregisterIrqCallback s pin

/-- An in-range call for pin `p`. -/
def For (p : Nat) (c : Call Fn) : Prop :=
  c.pin = p ∧ p < kNumGpios

instance (p : Nat) (c : Call Fn) : Decidable (c.For p) :=
  inferInstanceAs (Decidable (_ ∧ _))

end Call

def run (calls : List (Call Fn)) : Sys Fn :=
  calls.foldl Call.step .boot

/-- The most recent in-range call for a pin. -/
def last (p : Nat) (calls : List (Call Fn)) : Option (Call Fn) :=
  (calls.filter fun c => c.For p).getLast?

/-- The callback that event `e` on pin `p` calls. -/
def Sys.calls (s : Sys Fn) (p : Nat) (e : Fin 32) : Option Fn :=
  (s.interrupt p (BitVec.twoPow 32 e)).map Made.callback

/-! ## What the calls leave -/

variable {calls : List (Call Fn)} {c : Call Fn} {s : Sys Fn} {p : Nat}

theorem run_concat : run (calls ++ [c]) = c.step (run calls) := by
  rw [run, List.foldl_append]
  rfl

theorem last_concat_of_for (h : c.For p) : last p (calls ++ [c]) = some c := by
  simp [last, h]

theorem last_concat_of_not_for (h : ¬ c.For p) : last p (calls ++ [c]) = last p calls := by
  simp [last, h]

/-- The table has the callback of the last call for each pin, and the events of all of them are
enabled. -/
structure Agrees (calls : List (Call Fn)) (s : Sys Fn) : Prop where
  callback : ∀ p (h : p < kNumGpios), s.pinCallbacks ⟨p, h⟩ = (last p calls).bind Call.callback
  enabled : ∀ p i, (s.enabled p).getLsbD i = true ↔
    ∃ c ∈ calls, c.For p ∧ c.events.getLsbD i = true
  installed : (s.installed = true ∧ s.bankEnabled = true) ∨ ∀ p, s.enabled p = 0#32

theorem exists_events_concat {i : Nat} :
    (∃ d ∈ calls ++ [c], d.For p ∧ d.events.getLsbD i = true) ↔
      (∃ d ∈ calls, d.For p ∧ d.events.getLsbD i = true) ∨
        (c.For p ∧ c.events.getLsbD i = true) := by
  simp only [List.mem_append, List.mem_singleton, or_and_right, exists_or, exists_eq_left]

/-- A call out of range does nothing. -/
theorem step_of_out_of_range (h : ¬ c.pin < kNumGpios) : c.step s = s := by
  cases c with
  | register pin events callback => exact dif_neg h
  | unregister pin => exact dif_neg h

/-- The callback that a call in range leaves in the table. -/
theorem pinCallbacks_step (h : c.pin < kNumGpios) :
    (c.step s).pinCallbacks = Function.update s.pinCallbacks ⟨c.pin, h⟩ c.callback := by
  cases c with
  | register pin events callback =>
      have h' : pin < kNumGpios := h
      simp only [Call.step, gpioRegisterIrqCallback, dif_pos h', gpioSetIrqEnabled]
      rfl
  | unregister pin =>
      have h' : pin < kNumGpios := h
      simp only [Call.step, gpioUnregisterIrqCallback, dif_pos h']
      rfl

/-- The events that a call in range leaves enabled. -/
theorem enabled_step (h : c.pin < kNumGpios) :
    (c.step s).enabled = Function.update s.enabled c.pin (s.enabled c.pin ||| c.events) := by
  cases c with
  | register pin events callback =>
      have h' : pin < kNumGpios := h
      simp only [Call.step, gpioRegisterIrqCallback, dif_pos h', gpioSetIrqEnabled]
      rfl
  | unregister pin =>
      have h' : pin < kNumGpios := h
      simp only [Call.step, gpioUnregisterIrqCallback, dif_pos h', Call.events, BitVec.or_zero,
        Function.update_eq_self]

theorem installed_step (h : (s.installed = true ∧ s.bankEnabled = true) ∨
    ∀ p, s.enabled p = 0#32) :
    ((c.step s).installed = true ∧ (c.step s).bankEnabled = true) ∨
      ∀ p, (c.step s).enabled p = 0#32 := by
  by_cases hc : c.pin < kNumGpios
  · cases c with
    | register pin events callback =>
        have hc' : pin < kNumGpios := hc
        refine Or.inl ?_
        simp only [Call.step, gpioRegisterIrqCallback, dif_pos hc', gpioSetIrqEnabled, and_self]
    | unregister pin =>
        have hc' : pin < kNumGpios := hc
        simpa only [Call.step, gpioUnregisterIrqCallback, dif_pos hc'] using h
  · rwa [step_of_out_of_range hc]

theorem Agrees.step (h : Agrees calls s) : Agrees (calls ++ [c]) (c.step s) := by
  by_cases hc : c.pin < kNumGpios
  · refine ⟨fun p hp => ?_, fun p i => ?_, installed_step h.installed⟩
    · rw [pinCallbacks_step hc]
      by_cases hpin : c.pin = p
      · subst hpin
        rw [Function.update_self, last_concat_of_for ⟨rfl, hp⟩, Option.bind_some]
      · have hne : (⟨p, hp⟩ : Fin kNumGpios) ≠ ⟨c.pin, hc⟩ :=
          fun heq => hpin (congrArg Fin.val heq).symm
        rw [Function.update_of_ne hne, last_concat_of_not_for fun hfor => hpin hfor.1,
          h.callback p hp]
    · rw [exists_events_concat, enabled_step hc, ← h.enabled p i]
      -- The events of the pin grow by those of the call; an unregistration has none.
      by_cases hpin : c.pin = p
      · subst hpin
        simp [Call.For, hc]
      · rw [Function.update_of_ne (Ne.symm hpin)]
        simp [Call.For, hpin]
  · rw [step_of_out_of_range hc]
    -- A call out of range is a call for no pin.
    have hnot : ∀ p, ¬ c.For p := fun p hfor => hc (hfor.1 ▸ hfor.2)
    refine ⟨fun p hp => ?_, fun p i => ?_, h.installed⟩
    · rw [last_concat_of_not_for (hnot p), h.callback p hp]
    · rw [exists_events_concat, ← h.enabled p i]
      simp [hnot p]

theorem agrees_run (calls : List (Call Fn)) : Agrees calls (run calls) := by
  -- Induction on the sequence from its end, since the last call decides about the callback.
  induction calls using List.reverseRecOn with
  | nil =>
      refine ⟨fun p hp => rfl, fun p i => ?_, Or.inr fun p => rfl⟩
      simp [run, Sys.boot]
  | append_singleton calls c ih =>
      rw [run_concat]
      exact ih.step

/-! ## Dispatch -/

/-- The dispatcher hands the raised events that are enabled to the callback of the last call. -/
theorem Agrees.interrupt (h : Agrees calls s) (p : Nat) (raised : BitVec 32) :
    s.interrupt p raised =
      if raised &&& s.enabled p = 0#32 then none
      else ((last p calls).bind Call.callback).map fun f => ⟨f, p, raised &&& s.enabled p⟩ := by
  by_cases hnone : raised &&& s.enabled p = 0#32
  · rw [if_pos hnone, Sys.interrupt, if_neg]
    exact fun hguard => hguard.2.2 hnone
  · rw [if_neg hnone]
    -- Where the dispatcher has never been installed, no event is enabled either.
    rcases h.installed with ⟨hinstalled, hbank⟩ | hnever
    · rw [Sys.interrupt, if_pos ⟨hbank, hinstalled, hnone⟩, irqDispatcher]
      by_cases hp : p < kNumGpios
      · rw [dif_pos hp, h.callback p hp]
      · -- No call for a pin out of range.
        have hlast : last p calls = none := by
          rw [last, List.getLast?_eq_none_iff, List.filter_eq_nil_iff]
          simp [Call.For, hp]
        rw [dif_neg hp, hlast]
        rfl
    · rw [hnever p, BitVec.and_zero] at hnone
      exact absurd rfl hnone

theorem twoPow_and_eq_zero_iff (e : Fin 32) (x : BitVec 32) :
    BitVec.twoPow 32 e &&& x = 0#32 ↔ ¬ x.getLsbD e = true := by
  rw [BitVec.twoPow_and]
  by_cases hbit : x.getLsbD e = true
  · rw [if_pos hbit]
    refine iff_of_false (fun hzero => ?_) (not_not.2 hbit)
    have hone : (BitVec.twoPow 32 e).getLsbD e = true := by simp
    rw [hzero, BitVec.getLsbD_zero] at hone
    cases hone
  · rw [if_neg hbit]
    exact iff_of_true rfl hbit

theorem callback_last_iff {f : Fn} : (last p calls).bind Call.callback = some f ↔
    ∃ events, last p calls = some (.register p events (some f)) := by
  constructor
  · intro h
    rcases Option.bind_eq_some_iff.1 h with ⟨c, hc, hf⟩
    have hmem : c ∈ calls.filter fun c => c.For p := List.mem_of_getLast? hc
    have hfor : c.For p := of_decide_eq_true (List.mem_filter.1 hmem).2
    cases c with
    | register pin events callback =>
        rcases hfor with ⟨rfl, _⟩
        cases hf
        exact ⟨events, hc⟩
    | unregister pin => cases hf
  · rintro ⟨events, h⟩
    rw [h]
    rfl

theorem Agrees.calls_iff (h : Agrees calls s) (e : Fin 32) (f : Fn) :
    s.calls p e = some f ↔
      (∃ events, last p calls = some (.register p events (some f))) ∧
        ∃ c ∈ calls, c.For p ∧ c.events.getLsbD e = true := by
  rw [Sys.calls, h.interrupt, ← callback_last_iff, ← h.enabled p e]
  by_cases hbit : (s.enabled p).getLsbD e = true
  · rw [if_neg fun hzero => (twoPow_and_eq_zero_iff e _).1 hzero hbit, Option.map_map]
    simp [hbit, Function.comp_def]
  · rw [if_pos ((twoPow_and_eq_zero_iff e _).2 hbit)]
    refine iff_of_false ?_ fun h => hbit h.2
    rintro ⟨⟩

/-- Only the calls for a pin matter for it. -/
theorem last_filter : last p (calls.filter fun c => c.For p) = last p calls := by
  simp [last]

/-- An event calls a callback exactly if the most recent call for its pin was a registration with a
callback, and some registration for the pin has named the event; it is the callback of the most
recent one.  Calls for other pins, or out of range, make no difference. -/
theorem calls_run_iff (calls : List (Call Fn)) (p : Nat) (e : Fin 32) :
    (∀ f, (run calls).calls p e = some f ↔
        (∃ events, last p calls = some (.register p events (some f))) ∧
          ∃ c ∈ calls, c.For p ∧ c.events.getLsbD e = true) ∧
      (run calls).calls p e = (run (calls.filter fun c => c.For p)).calls p e := by
  refine ⟨(agrees_run calls).calls_iff e, Option.ext fun f => ?_⟩
  rw [(agrees_run calls).calls_iff e f, (agrees_run _).calls_iff e f, last_filter]
  simp only [List.mem_filter, decide_eq_true_eq]
  refine and_congr_right fun _ => exists_congr fun c => ?_
  exact ⟨fun h => ⟨⟨h.1, h.2.1⟩, h.2⟩, fun h => ⟨h.1.1, h.2⟩⟩

/-- The mask of the last registration alone does not decide: the first one's falling edge stays
enabled under the second one's rising edge. -/
theorem not_calls_iff_last : ¬ ∀ (calls : List (Call Nat)) (p : Nat) (e : Fin 32) (f : Nat),
    (run calls).calls p e = some f ↔
      ∃ events, last p calls = some (.register p events (some f)) ∧
        events.getLsbD e = true := by
  intro hclaim
  -- Event 2 is the falling edge, which only the first registration has named.
  have hcalls : (run [.register 0 4#32 (some 1), .register 0 8#32 (some 2)]).calls 0 2 = some 2 := by
    decide
  rcases (hclaim _ 0 2 2).1 hcalls with ⟨events, hlast, hbit⟩
  cases hlast
  exact absurd hbit (by decide)

end Gpio
end PicoCppSdk
