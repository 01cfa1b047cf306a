import PicoCppSdk.Mcp2515.Driver
import PicoCppSdk.Spi.Exclusion

/-!
# Locking — the driver's methods as bracketed programs

Every primitive is one `csSelect` bracket.  A method that only uses primitives is a flat program, so
any number of tasks may run such methods; `setFilter` and `setMask` open `csSelect` brackets inside
`lock`.
-/

namespace PicoCppSdk
namespace Mcp2515

open Atomic Transition Spi

variable {σ : Type} {ι : Type} [DecidableEq ι]

/-! ## Bracket calls of a method -/

/-- What a transaction does with the bus lock. -/
def BusAct.brackets : BusAct → List Spi.Act
  | .lock => Spi.lock true
  | .unlock => Spi.unlock true
  | _ => csSelect true ++ csDeselect true

/-- What a method does with the bus lock, the answers of the controller being given by `h`. -/
def brackets {α : Type} (h : (a : BusAct) → σ → a.Ans × σ) (p : Driver α) (s : σ) : List Spi.Act :=
  (p.trace h s).flatMap BusAct.brackets

/-- A byte transaction, not the lock. -/
def BusAct.Primitive : BusAct → Prop
  | .lock => False
  | .unlock => False
  | _ => True

/-- `n` brackets of `csSelect`, one after the other. -/
def selects : Nat → Script true
  | 0 => .done
  | n + 1 => .cs .done (selects n)

theorem selects_flat (n : Nat) : (selects n).Flat := by
  induction n with
  | zero => trivial
  | succ n ih => exact ⟨trivial, ih⟩

theorem brackets_of_primitive (as : List BusAct) (h : ∀ a ∈ as, a.Primitive) :
    as.flatMap BusAct.brackets = (selects as.length).code := by
  induction as with
  | nil => rfl
  | cons a as ih =>
      have ha : a.brackets = csSelect true ++ csDeselect true := by
        have hprim := h a List.mem_cons_self
        cases a with
        | lock => exact hprim.elim
        | unlock => exact hprim.elim
        | _ => rfl
      rw [List.flatMap_cons, ha, ih fun b hb => h b (List.mem_cons_of_mem a hb)]
      rfl

/-! ## Methods without the lock -/

/-- Tasks that run methods made of primitives exclude each other on the bus. -/
theorem exclusive_of_primitive {α : ι → Type} (method : (i : ι) → Driver (α i))
    (h : (a : BusAct) → σ → a.Ans × σ) (s : ι → σ)
    (hprim : ∀ i, (method i).Performs h BusAct.Primitive (s i)) :
    ∃ script : ι → Script true, (∀ i, (script i).code = brackets h (method i) (s i)) ∧
      ∀ t, Reachable Sys.step (Sys.start script) t → t.Exclusive ∧ t.bus.fired = false := by
  refine ⟨fun i => selects ((method i).trace h (s i)).length, fun i => ?_, fun t ht => ?_⟩
  · exact (brackets_of_primitive _ (Prog.mem_trace_of_performs (hprim i))).symm
  · exact Sys.exclusive_of_flat (fun i => selects_flat _) ht

/-! ## `setFilter` and `setMask` -/

theorem programFilterOrMask_brackets (sidh rxbCtrl : Byte) (id : BitVec 32) (extended : Bool)
    (h : (a : BusAct) → σ → a.Ans × σ) (s : σ) :
    brackets h (programFilterOrMask sidh rxbCtrl id extended) s =
      (Script.lock (selects 8) .done).code := by
  cases extended <;> rfl

/-- While one task is in `setFilter` or `setMask`, any other task that uses the bus can get in. -/
theorem not_exclusive_of_programFilterOrMask {script : ι → Script true} {i j : ι} (hij : i ≠ j)
    (hi : script i = .lock (selects 8) .done) (hj : ¬ (script j).IsDone) :
    ∃ t, Reachable Sys.step (Sys.start script) t ∧ ¬ t.Exclusive := by
  refine Sys.not_exclusive_of_nested (i := i) ?_ hij hj
  rw [hi]
  exact fun hflat => hflat.1

end Mcp2515
end PicoCppSdk
