import Mathlib.Data.List.Basic
import Mathlib.Logic.Relation

/-!
# Broadcast — what a medium that orders messages promises

Parties hand messages to a medium that carries one message at a time.  `log` is the order in which
the medium carries them; every party gets, in this order, the messages of the others that it takes.
The sender of a message is kept beside it, whether or not the receiver can tell.
-/

namespace Broadcast

universe u v

variable {ι : Type u} {μ : Type v}

/-! ## The model -/

structure State (ι : Type u) (μ : Type v) where
  sent : ι → List μ
  log : List (ι × μ)
  got : ι → List (ι × μ)

/-- No message has been handed in. -/
def State.empty : State ι μ :=
  ⟨fun _ => [], [], fun _ => []⟩

section Model

variable [DecidableEq ι] (takes : ι → μ → Bool)

/-- The messages of party `i` in a log. -/
def issued (i : ι) (log : List (ι × μ)) : List μ :=
  (log.filter fun p => decide (p.1 = i)).map Prod.snd

/-- A message of another party that `j` takes. -/
def addressed (j : ι) (p : ι × μ) : Bool :=
  !decide (p.1 = j) && takes j p.2

/-- The messages of a log that `j` is to get. -/
def due (j : ι) (log : List (ι × μ)) : List (ι × μ) :=
  log.filter (addressed takes j)

/-- A party hands in a message; the medium carries the next message of a party; a party gets the
next message that it is to get. -/
inductive Step (s : State ι μ) : State ι μ → Prop where
  | send (i : ι) (m : μ) :
      Step s { s with sent := Function.update s.sent i (s.sent i ++ [m]) }
  | order (i : ι) (m : μ) (rest : List μ) (hnext : s.sent i = issued i s.log ++ m :: rest) :
      Step s { s with log := s.log ++ [(i, m)] }
  | deliver (j : ι) (p : ι × μ) (rest : List (ι × μ))
      (hnext : due takes j s.log = s.got j ++ p :: rest) :
      Step s { s with got := Function.update s.got j (s.got j ++ [p]) }

/-- The medium carries the messages of each party in the order in which they were handed in, and
each party gets the messages of the others in the order of the medium, each once. -/
structure Ordered (s : State ι μ) : Prop where
  fifo : ∀ i, issued i s.log <+: s.sent i
  total : ∀ j, s.got j <+: due takes j s.log

end Model

/-! ## Logs -/

section Logs

variable [DecidableEq ι] {takes : ι → μ → Bool} {i j : ι} {m : μ} {p : ι × μ}
  {log log' : List (ι × μ)}

theorem issued_append : issued i (log ++ log') = issued i log ++ issued i log' := by
  rw [issued, List.filter_append, List.map_append]
  rfl

theorem issued_self : issued i [(i, m)] = [m] := by
  simp [issued]

theorem issued_other (h : j ≠ i) : issued i [(j, m)] = [] := by
  simp [issued, h]

theorem due_append : due takes j (log ++ log') = due takes j log ++ due takes j log' :=
  List.filter_append ..

theorem due_of_addressed (h : addressed takes j p = true) : due takes j [p] = [p] := by
  simp [due, h]

theorem due_of_not_addressed (h : addressed takes j p = false) : due takes j [p] = [] := by
  simp [due, h]

/-- The messages of `i` that another party is to get are those of `i` that it takes. -/
theorem issued_due (hne : i ≠ j) : issued i (due takes j log) = (issued i log).filter (takes j) := by
  simp only [issued, due, List.filter_filter, List.filter_map]
  congr 1
  apply List.filter_congr
  rintro ⟨k, m⟩ _
  by_cases hk : k = i
  · simp [addressed, hk, hne]
  · simp [hk]

end Logs

/-! ## Guarantees -/

namespace Ordered

variable [DecidableEq ι] {takes : ι → μ → Bool} {s t : State ι μ} {i j k : ι}

theorem empty : Ordered takes (State.empty : State ι μ) :=
  ⟨fun _ => List.prefix_rfl, fun _ => List.prefix_rfl⟩

theorem step (h : Ordered takes s) (hstep : Step takes s t) : Ordered takes t := by
  cases hstep with
  | send i m =>
      refine ⟨?_, h.total⟩
      intro k
      by_cases hk : k = i
      · subst hk
        simp only [Function.update_self]
        exact (h.fifo k).trans (List.prefix_append _ _)
      · simp only [Function.update_of_ne hk]
        exact h.fifo k
  | order i m rest hnext =>
      refine ⟨?_, ?_⟩
      · intro k
        rw [issued_append]
        by_cases hk : i = k
        · subst hk
          -- The message that is carried is the first that was not.
          rw [issued_self, hnext]
          exact ⟨rest, by simp⟩
        · rw [issued_other hk, List.append_nil]
          exact h.fifo k
      · intro k
        rw [due_append]
        exact (h.total k).trans (List.prefix_append _ _)
  | deliver j p rest hnext =>
      refine ⟨h.fifo, ?_⟩
      intro k
      by_cases hk : k = j
      · subst hk
        simp only [Function.update_self, hnext]
        exact ⟨rest, by simp⟩
      · simp only [Function.update_of_ne hk]
        exact h.total k

theorem run (h : Ordered takes s) (hrun : Relation.ReflTransGen (Step takes) s t) :
    Ordered takes t := by
  induction hrun with
  | refl => exact h
  | tail _ hstep ih => exact ih.step hstep

/-- Of the messages that both are to get, one of two parties has got a first part of what the other
has got, in the same order. -/
theorem agree (h : Ordered takes s) (j k : ι) :
    (s.got j).filter (addressed takes k) <+: (s.got k).filter (addressed takes j) ∨
      (s.got k).filter (addressed takes j) <+: (s.got j).filter (addressed takes k) := by
  -- Both are first parts of the log without the messages that one of them is not to get.
  have hj := (h.total j).filter (addressed takes k)
  have hk := (h.total k).filter (addressed takes j)
  have hsame : (due takes j s.log).filter (addressed takes k) =
      (due takes k s.log).filter (addressed takes j) := by
    simp only [due, List.filter_filter, Bool.and_comm]
  rw [hsame] at hj
  exact List.prefix_or_prefix_of_prefix hj hk

/-- What a party has got was addressed to it, and is in the log. -/
theorem mem_got (h : Ordered takes s) {p : ι × μ} (hp : p ∈ s.got j) :
    p ∈ s.log ∧ addressed takes j p = true :=
  List.mem_filter.1 ((h.total j).subset hp)

/-- Two parties that are to get the same messages get them in the same order. -/
theorem agree_of_same (h : Ordered takes s)
    (hsame : ∀ p ∈ s.log, addressed takes j p = addressed takes k p) :
    s.got j <+: s.got k ∨ s.got k <+: s.got j := by
  have hj : (s.got j).filter (addressed takes k) = s.got j := by
    apply List.filter_eq_self.2
    intro p hp
    rcases h.mem_got hp with ⟨hlog, hto⟩
    exact (hsame p hlog).symm.trans hto
  have hk : (s.got k).filter (addressed takes j) = s.got k := by
    apply List.filter_eq_self.2
    intro p hp
    rcases h.mem_got hp with ⟨hlog, hto⟩
    exact (hsame p hlog).trans hto
  have hagree := h.agree j k
  rwa [hj, hk] at hagree

/-- What `j` has got from `i` is a first part of what `i` has handed in and `j` takes. -/
theorem from_sender (h : Ordered takes s) (hne : i ≠ j) :
    issued i (s.got j) <+: (s.sent i).filter (takes j) := by
  have hgot : issued i (s.got j) <+: issued i (due takes j s.log) :=
    ((h.total j).filter _).map _
  rw [issued_due hne] at hgot
  exact hgot.trans ((h.fifo i).filter _)

/-- A party that is to get the messages of `i` only gets them as from a queue. -/
theorem from_only (h : Ordered takes s) (hne : i ≠ j)
    (honly : ∀ p ∈ s.log, addressed takes j p = true → p.1 = i) :
    (s.got j).map Prod.snd <+: (s.sent i).filter (takes j) := by
  have hall : (s.got j).filter (fun p => decide (p.1 = i)) = s.got j := by
    apply List.filter_eq_self.2
    intro p hp
    rcases h.mem_got hp with ⟨hlog, hto⟩
    exact decide_eq_true (honly p hlog hto)
  have hfrom := h.from_sender hne
  rwa [issued, hall] at hfrom

end Ordered

end Broadcast
