import PicoCppSdk.Foundation.Threads

/-!
# Reduction — transactions under a lock as single steps

Threads whose actions are themselves programs of smaller actions: a transaction takes a lock, goes
through its actions and gives the lock back, and one of its actions has the whole effect.  Between
any two of them other threads and events of the surroundings may change the state.  Every run of the
small actions then shows from outside what a run of whole transactions shows, and the other way
round.
-/

namespace Atomic

open Transition

universe u u' v w x

/-! ## Expansion -/

namespace Prog

variable {Act Act' : Type} {Ans : Act → Type} {Ans' : Act' → Type} {α β : Type} {σ : Type u}

/-- Each action replaced by the program that carries it out. -/
def expand (E : (a : Act) → Prog Act' Ans' (Ans a)) : Prog Act Ans α → Prog Act' Ans' α
  | .ret x => .ret x
  | .act a k => E a >>= fun r => expand E (k r)

variable {perform : (a : Act) → σ → Option (Ans a × σ)}

/-- While a program goes on, so does what it is the first part of. -/
theorem step_bind {a : Act} {k : Ans a → Prog Act Ans α} (f : α → Prog Act Ans β) (s : σ) :
    (.act a k >>= f : Prog Act Ans β).step perform s =
      ((act a k).step perform s).map fun q => (q.1 >>= f, q.2) := by
  simp only [act_bind, step, Option.map_map]
  rfl

theorem steps_bind {n : Nat} {p q : Prog Act Ans α} {s t : σ} (f : α → Prog Act Ans β)
    (h : steps perform n p s = some (q, t)) :
    steps perform n (p >>= f) s = some (q >>= f, t) := by
  induction n generalizing p s with
  | zero =>
      cases h
      rfl
  | succ n ih =>
      rcases Option.bind_eq_some_iff.1 h with ⟨⟨p', s'⟩, hstep, hrest⟩
      cases p with
      | ret x => cases hstep
      | act a k =>
          rw [steps, step_bind, hstep]
          exact ih hrest

end Prog

/-! ## Transactions -/

variable {ι : Type v} {Act Act' : Type} {Ans : Act → Type} {Ans' : Act' → Type}
  {σ : Type u} {σ' : Type u'} {α : ι → Type} {κ : Type w} {ε : Type x}

/-- How the actions of a machine are carried out by smaller ones. -/
structure Reduction (M : Machine Act Ans σ α κ ε) (Act' : Type) (Ans' : Act' → Type)
    (σ' : Type u') where
  expand : (a : Act) → Prog Act' Ans' (Ans a)
  perform : ι → (a : Act') → σ' → Option (Ans' a × σ')
  event : ε → σ' → Option σ'
  view : σ' → σ
  Allowed : Act → Prop
  Unlocked : σ' → Prop
  /-- Thread `i` is inside a transaction that has not taken effect, with a program left to run. -/
  Before : ι → σ' → (a : Act) → Prog Act' Ans' (Ans a) → Prop
  /-- Thread `i` is inside a transaction that has taken effect and will return an answer. -/
  After : ι → σ' → (a : Act) → Ans a → Prog Act' Ans' (Ans a) → Prop

namespace Reduction

variable {M : Machine Act Ans σ α κ ε}

/-- Thread `j` is inside a transaction. -/
def Holds (D : Reduction M Act' Ans' σ') (j : ι) (s : σ') : Prop :=
  (∃ a q, D.Before j s a q) ∨ ∃ a r q, D.After j s a r q

/-- What thread `j` relies on inside a transaction is the same in both states. -/
structure Stays (D : Reduction M Act' Ans' σ') (j : ι) (s t : σ') : Prop where
  before : ∀ a q, D.Before j s a q → D.Before j t a q
  after : ∀ a r q, D.After j s a r q → D.After j t a r q

/-- A step of the actions, seen as a step of the transactions. -/
structure Lawful (D : Reduction M Act' Ans' σ') : Prop where
  expand_act : ∀ a, D.Allowed a → ∃ b k, D.expand a = .act b k
  before_act : ∀ i s a q, D.Before i s a q → ¬ D.Unlocked s ∧ ∃ b k, q = .act b k
  after_act : ∀ i s a r q, D.After i s a r q → ¬ D.Unlocked s ∧ ∃ b k, q = .act b k
  /-- An action that needs no lock is a step; the first one of a transaction needs it. -/
  begins : ∀ i s a q t, D.Allowed a → (D.Unlocked s ∨ ∃ j, j ≠ i ∧ D.Holds j s) →
    (D.expand a).step (D.perform i) s = some (q, t) →
    (∃ r, q = .ret r ∧ M.perform i a (D.view s) = some (r, D.view t) ∧
      (D.Unlocked s → D.Unlocked t) ∧ ∀ j, j ≠ i → D.Stays j s t) ∨
    (D.Unlocked s ∧ D.Before i t a q ∧ D.view t = D.view s)
  goesOn : ∀ i s a q q' t, D.Before i s a q → q.step (D.perform i) s = some (q', t) →
    (D.Before i t a q' ∧ D.view t = D.view s) ∨
    ∃ r, M.perform i a (D.view s) = some (r, D.view t) ∧ D.After i t a r q'
  ends : ∀ i s a r q q' t, D.After i s a r q → q.step (D.perform i) s = some (q', t) →
    D.view t = D.view s ∧ (D.After i t a r q' ∨ (D.Unlocked t ∧ q' = .ret r))
  event : ∀ e s t, D.event e s = some t →
    M.event e (D.view s) = some (D.view t) ∧ (D.Unlocked s → D.Unlocked t) ∧ ∀ j, D.Stays j s t
  /-- A thread that is left alone comes to the end of its transaction. -/
  alone : ∀ i s a r c, D.Allowed a → D.Unlocked s → M.perform i a (D.view s) = some (r, c) →
    ∃ n t, Prog.steps (D.perform i) n (D.expand a) s = some (.ret r, t) ∧ D.Unlocked t ∧
      D.view t = c
  event_exists : ∀ e s c, M.event e (D.view s) = some c → ∃ t, D.event e s = some t

/-- The machine of the smaller actions. -/
def machine (D : Reduction M Act' Ans' σ') : Machine Act' Ans' σ' α κ ε where
  perform := D.perform
  caller := M.caller
  entry c x := (M.entry c x).expand D.expand
  event := D.event

/-! ## The relation -/

variable (D : Reduction M Act' Ans' σ')

/-- Thread `i` inside a transaction: `p` with transactions as single steps, `q` without. -/
inductive Inside (i : ι) (s : σ') {β : Type} : Prog Act Ans β → Prog Act' Ans' β → Prop where
  | before (a : Act) (k : Ans a → Prog Act Ans β) (q : Prog Act' Ans' (Ans a)) :
      D.Before i s a q → Inside i s (.act a k) (q >>= fun r => (k r).expand D.expand)
  | after (a : Act) (k : Ans a → Prog Act Ans β) (r : Ans a) (q : Prog Act' Ans' (Ans a)) :
      D.After i s a r q → Inside i s (k r) (q >>= fun r => (k r).expand D.expand)

/-- `holder` is the thread that is inside a transaction. -/
structure Matches (holder : Option ι) (s : Threads Act' Ans' σ' α) (u : Threads Act Ans σ α) :
    Prop where
  view : u.shared = D.view s.shared
  allowed : ∀ i, (u.thread i).Every D.Allowed
  unlocked : holder = none → D.Unlocked s.shared
  inside : ∀ i, holder = some i → D.Inside i s.shared (u.thread i) (s.thread i)
  outside : ∀ i, holder ≠ some i → s.thread i = (u.thread i).expand D.expand

variable {D}

theorem Lawful.expand_eq_ret (h : D.Lawful) {β : Type} {p : Prog Act Ans β}
    (hp : p.Every D.Allowed) {x : β} (hret : p.expand D.expand = .ret x) : p = .ret x := by
  cases p with
  | ret y =>
      cases hret
      rfl
  | act a k =>
      rcases h.expand_act a hp.1 with ⟨b, k', hexpand⟩
      rw [Prog.expand, hexpand] at hret
      cases hret

/-- The two machines at their start. -/
theorem Matches.start {c : σ'} {p : (i : ι) → Prog Act Ans (α i)}
    (hp : ∀ i, (p i).Every D.Allowed) (hunlocked : D.Unlocked c) :
    D.Matches none ⟨c, fun i => (p i).expand D.expand⟩ ⟨D.view c, p⟩ where
  view := rfl
  allowed := hp
  unlocked _ := hunlocked
  inside i h := absurd h.symm (Option.some_ne_none i)
  outside _ _ := rfl

section Inside

variable {i : ι} {β : Type} {c d : σ'} {p : Prog Act Ans β} {q : Prog Act' Ans' β}

theorem Inside.holds (hin : D.Inside i c p q) : D.Holds i c := by
  cases hin with
  | before a k q hbefore => exact Or.inl ⟨a, q, hbefore⟩
  | after a k r q hafter => exact Or.inr ⟨a, r, q, hafter⟩

theorem Lawful.locked (h : D.Lawful) (hin : D.Inside i c p q) : ¬ D.Unlocked c := by
  cases hin with
  | before a k q hbefore => exact (h.before_act i c a q hbefore).1
  | after a k r q hafter => exact (h.after_act i c a r q hafter).1

theorem Lawful.ne_ret (h : D.Lawful) (hin : D.Inside i c p q) (x : β) : q ≠ .ret x := by
  cases hin with
  | before a k q hbefore =>
      rcases (h.before_act i c a q hbefore).2 with ⟨b, k', rfl⟩
      intro hret
      cases hret
  | after a k r q hafter =>
      rcases (h.after_act i c a r q hafter).2 with ⟨b, k', rfl⟩
      intro hret
      cases hret

theorem Inside.stays (hin : D.Inside i c p q) (hstays : D.Stays i c d) : D.Inside i d p q := by
  cases hin with
  | before a k q hbefore => exact .before a k q (hstays.before a q hbefore)
  | after a k r q hafter => exact .after a k r q (hstays.after a r q hafter)

/-- A step inside a transaction is nothing, or the effect of the transaction, or its end. -/
theorem Lawful.inside_step (h : D.Lawful) (hin : D.Inside i c p q) {q' : Prog Act' Ans' β}
    (hstep : q.step (D.perform i) c = some (q', d)) :
    (D.Inside i d p q' ∧ D.view d = D.view c) ∨
    (∃ a k r, p = .act a k ∧ M.perform i a (D.view c) = some (r, D.view d) ∧
      D.Inside i d (k r) q') ∨
    (D.Unlocked d ∧ q' = p.expand D.expand ∧ D.view d = D.view c) := by
  cases hin with
  | before a k q hbefore =>
      rcases (h.before_act i c a q hbefore).2 with ⟨b, k', rfl⟩
      rw [Prog.step_bind] at hstep
      rcases Option.map_eq_some_iff.1 hstep with ⟨⟨q₁, d'⟩, hq, heq⟩
      cases heq
      rcases h.goesOn i c a _ q₁ d' hbefore hq with ⟨hbefore', hview⟩ | ⟨r, heffect, hafter⟩
      · exact Or.inl ⟨.before a k q₁ hbefore', hview⟩
      · exact Or.inr (Or.inl ⟨a, k, r, rfl, heffect, .after a k r q₁ hafter⟩)
  | after a k r q hafter =>
      rcases (h.after_act i c a r q hafter).2 with ⟨b, k', rfl⟩
      rw [Prog.step_bind] at hstep
      rcases Option.map_eq_some_iff.1 hstep with ⟨⟨q₁, d'⟩, hq, heq⟩
      cases heq
      rcases h.ends i c a r _ q₁ d' hafter hq with ⟨hview, hafter' | ⟨hunlocked, rfl⟩⟩
      · exact Or.inl ⟨.after a k r q₁ hafter', hview⟩
      · exact Or.inr (Or.inr ⟨hunlocked, rfl, hview⟩)

/-- The first step of the action that a thread comes to outside a transaction. -/
theorem Lawful.first_step (h : D.Lawful) (hp : p.Every D.Allowed)
    (hlock : D.Unlocked c ∨ ∃ j, j ≠ i ∧ D.Holds j c) {q' : Prog Act' Ans' β}
    (hstep : (p.expand D.expand).step (D.perform i) c = some (q', d)) :
    (∃ a k r, p = .act a k ∧ q' = (k r).expand D.expand ∧
      M.perform i a (D.view c) = some (r, D.view d) ∧ (D.Unlocked c → D.Unlocked d) ∧
      ∀ j, j ≠ i → D.Stays j c d) ∨
    (D.Unlocked c ∧ D.Inside i d p q' ∧ D.view d = D.view c) := by
  cases p with
  | ret x => cases hstep
  | act a k =>
      rcases h.expand_act a hp.1 with ⟨b, k', hexpand⟩
      rw [Prog.expand, hexpand, Prog.step_bind, ← hexpand] at hstep
      rcases Option.map_eq_some_iff.1 hstep with ⟨⟨q₁, d'⟩, hq, heq⟩
      cases heq
      rcases h.begins i c a q₁ d' hp.1 hlock hq with ⟨r, rfl, heffect, hkeeps, hstays⟩ |
        ⟨hunlocked, hbefore, hview⟩
      · exact Or.inl ⟨a, k, r, rfl, rfl, heffect, hkeeps, hstays⟩
      · exact Or.inr ⟨hunlocked, .before a k q₁ hbefore, hview⟩

end Inside

/-! ## Steps -/

variable [DecidableEq ι] {holder : Option ι} {s t : Threads Act' Ans' σ' α}
  {u : Threads Act Ans σ α} {i : ι}

theorem Lawful.ret_of_matches (h : D.Lawful) (hm : D.Matches holder s u) {x : α i}
    (hx : s.thread i = .ret x) : u.thread i = .ret x := by
  by_cases hi : holder = some i
  · exact absurd hx (h.ne_ret (hm.inside i hi) x)
  · exact h.expand_eq_ret (hm.allowed i) ((hm.outside i hi).symm.trans hx)

/-- Thread `i` goes on in both machines, the other ones stay where they are. -/
theorem Matches.update {holder' : Option ι} {c : σ'} {d : σ} {p : Prog Act Ans (α i)}
    {q : Prog Act' Ans' (α i)} (hm : D.Matches holder s u) (hview : d = D.view c)
    (hp : p.Every D.Allowed) (hunlocked : holder' = none → D.Unlocked c)
    (hinside : holder' = some i → D.Inside i c p q)
    (houtside : holder' ≠ some i → q = p.expand D.expand)
    (hothers : ∀ j, j ≠ i → (holder' = some j ↔ holder = some j) ∧
      (holder = some j → D.Stays j s.shared c)) :
    D.Matches holder' ⟨c, Function.update s.thread i q⟩ ⟨d, Function.update u.thread i p⟩ where
  view := hview
  allowed := Prog.every_update hm.allowed hp
  unlocked := hunlocked
  inside j hholder := by
    by_cases hj : j = i
    · subst hj
      simpa using hinside hholder
    · have hbefore := (hothers j hj).1.1 hholder
      simpa [Function.update_of_ne hj] using
        (hm.inside j hbefore).stays ((hothers j hj).2 hbefore)
  outside j hholder := by
    by_cases hj : j = i
    · subst hj
      simpa using houtside hholder
    · have hbefore : holder ≠ some j := fun h => hholder ((hothers j hj).1.2 h)
      simpa [Function.update_of_ne hj] using hm.outside j hbefore

theorem Lawful.act (h : D.Lawful) (hm : D.Matches holder s u)
    (hl : D.machine.step (.act i) s = some t) :
    ∃ holder' v ms, D.Matches holder' t v ∧ Run M.step Free u ms v ∧
      ms.filterMap Machine.Label.shown = [] := by
  rcases Machine.step_act_cases hl with ⟨q, c, hstep, rfl⟩
  have hsame : Function.update u.thread i (u.thread i) = u.thread := Function.update_eq_self i _
  have hne : ∀ j, j ≠ i → ¬ some i = some j := fun j hj h => hj (Option.some.inj h).symm
  have hnone : ∀ j : ι, ¬ none = some j := fun j h => Option.some_ne_none j h.symm
  by_cases hi : holder = some i
  · subst hi
    have hothers : ∀ j, j ≠ i → (some i = some j ↔ some i = some j) ∧
        (some i = some j → D.Stays j s.shared c) := by
      intro j hj
      exact ⟨Iff.rfl, fun h => absurd h (hne j hj)⟩
    rcases h.inside_step (hm.inside i rfl) hstep with ⟨hin, hview⟩ |
      ⟨a, k, r, hp, heffect, hin⟩ | ⟨hunlocked, rfl, hview⟩
    · refine ⟨some i, u, [], ?_, .nil u, rfl⟩
      have hm' := hm.update (hm.view.trans hview.symm) (hm.allowed i) (fun h => by cases h)
        (fun _ => hin) (fun h => absurd rfl h) hothers
      rwa [hsame] at hm'
    · have hallowed := hm.allowed i
      rw [hp] at hallowed
      have heffect' : (u.thread i).step (M.perform i) u.shared = some (k r, D.view c) := by
        rw [hp, hm.view, Prog.step, heffect, Option.map_some]
      exact ⟨some i, _, [.act i],
        hm.update rfl (hallowed.2 r) (fun h => by cases h) (fun _ => hin) (fun h => absurd rfl h)
          hothers,
        .single trivial (Machine.step_act heffect'), rfl⟩
    · refine ⟨none, u, [], ?_, .nil u, rfl⟩
      have hm' := hm.update (q := (u.thread i).expand D.expand) (hm.view.trans hview.symm)
        (hm.allowed i) (fun _ => hunlocked) (fun h => absurd h (hnone i)) (fun _ => rfl)
        fun j hj => ⟨iff_of_false (hnone j) (hne j hj), (hothers j hj).2⟩
      rwa [hsame] at hm'
  · have hlock : D.Unlocked s.shared ∨ ∃ j, j ≠ i ∧ D.Holds j s.shared := by
      cases hholder : holder with
      | none => exact Or.inl (hm.unlocked hholder)
      | some j =>
          have hij : j ≠ i := fun h => hi (hholder.trans (congrArg some h))
          exact Or.inr ⟨j, hij, (hm.inside j hholder).holds⟩
    rw [hm.outside i hi] at hstep
    rcases h.first_step (hm.allowed i) hlock hstep with
      ⟨a, k, r, hp, rfl, heffect, hkeeps, hstays⟩ | ⟨hunlocked, hin, hview⟩
    · have hallowed := hm.allowed i
      rw [hp] at hallowed
      have heffect' : (u.thread i).step (M.perform i) u.shared = some (k r, D.view c) := by
        rw [hp, hm.view, Prog.step, heffect, Option.map_some]
      exact ⟨holder, _, [.act i],
        hm.update rfl (hallowed.2 r) (fun h => hkeeps (hm.unlocked h)) (fun h => absurd h hi)
          (fun _ => rfl) fun j hj => ⟨Iff.rfl, fun _ => hstays j hj⟩,
        .single trivial (Machine.step_act heffect'), rfl⟩
    · -- The lock is free, so no other thread is inside a transaction.
      have hfree : holder = none := by
        cases holder with
        | none => rfl
        | some j => exact absurd hunlocked (h.locked (hm.inside j rfl))
      subst hfree
      refine ⟨some i, u, [], ?_, .nil u, rfl⟩
      have hm' := hm.update (hm.view.trans hview.symm) (hm.allowed i) (fun h => by cases h)
        (fun _ => hin) (fun h => absurd rfl h)
        fun j hj => ⟨iff_of_false (hne j hj) (hnone j), fun h => absurd h (hnone j)⟩
      rwa [hsame] at hm'

theorem Lawful.call (h : D.Lawful) (hm : D.Matches holder s u) {c : κ}
    (hentry : ∀ x, (M.entry c x).Every D.Allowed)
    (hl : D.machine.step (.call c) s = some t) :
    ∃ v, D.Matches holder t v ∧ M.step (.call c) u = some v := by
  rcases Machine.step_call_cases hl with ⟨x, hx, rfl⟩
  have hret := h.ret_of_matches hm hx
  have hi : holder ≠ some (M.caller c) := by
    intro hholder
    exact h.ne_ret (hm.inside _ hholder) x hx
  exact ⟨_, hm.update hm.view (hentry x) hm.unlocked (fun h => absurd h hi) (fun _ => rfl)
      fun j _ => ⟨Iff.rfl, fun _ => ⟨fun _ _ h => h, fun _ _ _ h => h⟩⟩,
    Machine.step_call hret⟩

theorem Lawful.event_step (h : D.Lawful) (hm : D.Matches holder s u) {e : ε}
    (hl : D.machine.step (.event e) s = some t) :
    ∃ v, D.Matches holder t v ∧ M.step (.event e) u = some v := by
  rcases Machine.step_event_cases hl with ⟨c, hc, rfl⟩
  rcases h.event e s.shared c hc with ⟨hview, hkeeps, hstays⟩
  rw [← hm.view] at hview
  exact ⟨{ u with shared := D.view c },
    ⟨rfl, hm.allowed, fun h => hkeeps (hm.unlocked h),
      fun j hj => (hm.inside j hj).stays (hstays j), hm.outside⟩,
    Machine.step_event hview⟩

/-- A whole transaction of a thread that is left alone. -/
theorem Lawful.act_exists (h : D.Lawful) (hm : D.Matches none s u) {v : Threads Act Ans σ α}
    (hl : M.step (.act i) u = some v) :
    ∃ t ls, D.Matches none t v ∧ Run D.machine.step Free s ls t ∧
      ls.filterMap Machine.Label.shown = [] := by
  rcases Machine.step_act_cases hl with ⟨q, c, hstep, rfl⟩
  cases hp : u.thread i with
  | ret x =>
      rw [hp] at hstep
      cases hstep
  | act a k =>
      rw [hp, hm.view] at hstep
      rcases Option.map_eq_some_iff.1 hstep with ⟨⟨r, c'⟩, heffect, heq⟩
      cases heq
      have hallowed := hm.allowed i
      rw [hp] at hallowed
      rcases h.alone i s.shared a r _ hallowed.1 (hm.unlocked rfl) heffect with
        ⟨n, d, halone, hunlocked, rfl⟩
      have hthread : s.thread i = (u.thread i).expand D.expand :=
        hm.outside i fun h => Option.some_ne_none i h.symm
      have hsteps : Prog.steps (D.machine.perform i) n (s.thread i) s.shared =
          some ((k r).expand D.expand, d) := by
        rw [hthread, hp]
        exact Prog.steps_bind (fun r => (k r).expand D.expand) halone
      refine ⟨_, _, hm.update rfl (hallowed.2 r) (fun _ => hunlocked)
        (fun h => absurd h.symm (Option.some_ne_none i)) (fun _ => rfl) fun j _ => ?_,
        Machine.run_alone hsteps, Machine.Label.shown_replicate i n⟩
      exact ⟨Iff.rfl, fun h => absurd h.symm (Option.some_ne_none j)⟩

theorem Lawful.call_exists (h : D.Lawful) (hm : D.Matches none s u) {c : κ}
    {v : Threads Act Ans σ α} (hentry : ∀ x, (M.entry c x).Every D.Allowed)
    (hl : M.step (.call c) u = some v) :
    ∃ t, D.Matches none t v ∧ D.machine.step (.call c) s = some t := by
  rcases Machine.step_call_cases hl with ⟨x, hx, rfl⟩
  have hret : s.thread (M.caller c) = .ret x := by
    rw [hm.outside _ fun h => Option.some_ne_none _ h.symm, hx]
    rfl
  have hstep : D.machine.step (.call c) s = some { s with
      thread := Function.update s.thread (M.caller c) ((M.entry c x).expand D.expand) } :=
    Machine.step_call (M := D.machine) hret
  rcases h.call hm hentry hstep with ⟨v', hm', hv'⟩
  rw [hl] at hv'
  cases hv'
  exact ⟨_, hm', hstep⟩

theorem Lawful.event_exists_step (h : D.Lawful) (hm : D.Matches none s u) {e : ε}
    {v : Threads Act Ans σ α} (hl : M.step (.event e) u = some v) :
    ∃ t, D.Matches none t v ∧ D.machine.step (.event e) s = some t := by
  rcases Machine.step_event_cases hl with ⟨c, hc, rfl⟩
  rw [hm.view] at hc
  rcases h.event_exists e s.shared c hc with ⟨d, hd⟩
  have hstep : D.machine.step (.event e) s = some { s with shared := d } :=
    Machine.step_event (M := D.machine) hd
  rcases h.event_step hm hstep with ⟨v', hm', hv'⟩
  rw [hl] at hv'
  cases hv'
  exact ⟨_, hm', hstep⟩

/-! ## Runs -/

section Runs

variable (hentry : ∀ c x, (M.entry c x).Every D.Allowed)
include hentry

/-- Every run of the actions is seen from outside as a run of transactions. -/
theorem Lawful.run (h : D.Lawful) (hm : D.Matches holder s u) {ls : List (Machine.Label ι κ ε)}
    (hrun : Run D.machine.step Free s ls t) :
    ∃ v ms, (∃ holder', D.Matches holder' t v) ∧ Run M.step Free u ms v ∧
      ms.filterMap Machine.Label.shown = ls.filterMap Machine.Label.shown := by
  refine hrun.simulates_visible (R := fun s u => ∃ holder, D.Matches holder s u) ?_ ⟨holder, hm⟩
  rintro s u l t ⟨holder, hm⟩ _ hl
  cases l with
  | act i =>
      rcases h.act hm hl with ⟨holder', v, ms, hm', hrun', hshown⟩
      exact ⟨v, ms, ⟨holder', hm'⟩, hrun', hshown⟩
  | call c =>
      rcases h.call hm (hentry c) hl with ⟨v, hm', hstep⟩
      exact ⟨v, [.call c], ⟨holder, hm'⟩, .single trivial hstep, rfl⟩
  | event e =>
      rcases h.event_step hm hl with ⟨v, hm', hstep⟩
      exact ⟨v, [.event e], ⟨holder, hm'⟩, .single trivial hstep, rfl⟩

/-- Every run of transactions is there as a run of the actions. -/
theorem Lawful.run_exists (h : D.Lawful) (hm : D.Matches none s u) {v : Threads Act Ans σ α}
    {ms : List (Machine.Label ι κ ε)} (hrun : Run M.step Free u ms v) :
    ∃ t ls, D.Matches none t v ∧ Run D.machine.step Free s ls t ∧
      ls.filterMap Machine.Label.shown = ms.filterMap Machine.Label.shown := by
  refine hrun.simulates_visible (R := fun u s => D.Matches none s u) ?_ hm
  intro u s l v hm _ hl
  cases l with
  | act i =>
      rcases h.act_exists hm hl with ⟨t, ls, hm', hrun', hshown⟩
      exact ⟨t, ls, hm', hrun', hshown⟩
  | call c =>
      rcases h.call_exists hm (hentry c) hl with ⟨t, hm', hstep⟩
      exact ⟨t, [.call c], hm', .single trivial hstep, rfl⟩
  | event e =>
      rcases h.event_exists_step hm hl with ⟨t, hm', hstep⟩
      exact ⟨t, [.event e], hm', .single trivial hstep, rfl⟩

end Runs

end Reduction
end Atomic
