import Wae.Transition.Projection

/-! Machines side by side, and machines in their surroundings.

Two machines make a third, which takes one step of either at a time. The surroundings of
a machine are a machine too: they take part in those of its steps that concern them, and
take steps of their own. A projection carries over to both: what a machine looks like, it
looks like beside another and in the same surroundings. -/
namespace Wae.Transition

variable {S A T B S' A' T' B' D C : Type}

namespace Machine

def pair (M : Machine S A) (M' : Machine S' A') : Machine (S × S') (A ⊕ A') where
  init := (M.init, M'.init)
  step s
    | .inl a => (M.step s.1 a).map fun s' => (s', s.2)
    | .inr a => (M'.step s.2 a).map fun s' => (s.1, s')

/-- `part`: what a step of the machine is to the surroundings, if it is anything. -/
def beside (M : Machine S A) (part : S → A → Option B) (E : Machine D (B ⊕ C)) :
    Machine (S × D) (A ⊕ C) where
  init := (M.init, E.init)
  step s
    | .inl a => (M.step s.1 a).bind fun s' =>
      match part s.1 a with
      | none => some (s', s.2)
      | some b => (E.step s.2 (.inl b)).map fun d => (s', d)
    | .inr c => (E.step s.2 (.inr c)).map fun d => (s.1, d)

variable {M : Machine S A} {part : S → A → Option B} {E : Machine D (B ⊕ C)} {s s' : S × D}

theorem beside_none {a : A} (hp : part s.1 a = none) :
    (M.beside part E).step s (.inl a) = some s' ↔ M.step s.1 a = some s'.1 ∧ s'.2 = s.2 := by
  simp only [beside, hp, Option.bind_eq_some_iff, Option.some.injEq]
  constructor
  · rintro ⟨t, ht, rfl⟩
    exact ⟨ht, rfl⟩
  · intro ⟨ht, hd⟩
    exact ⟨s'.1, ht, by rw [← hd]⟩

theorem beside_some {a : A} {b : B} (hp : part s.1 a = some b) :
    (M.beside part E).step s (.inl a) = some s' ↔
      M.step s.1 a = some s'.1 ∧ E.step s.2 (.inl b) = some s'.2 := by
  simp only [beside, hp, Option.bind_eq_some_iff, Option.map_eq_some_iff]
  constructor
  · rintro ⟨t, ht, d, hd, rfl⟩
    exact ⟨ht, hd⟩
  · intro ⟨ht, hd⟩
    exact ⟨s'.1, ht, s'.2, hd, rfl⟩

theorem beside_own {c : C} : (M.beside part E).step s (.inr c) = some s' ↔
    s'.1 = s.1 ∧ E.step s.2 (.inr c) = some s'.2 := by
  simp only [beside, Option.map_eq_some_iff]
  constructor
  · rintro ⟨d, hd, rfl⟩
    exact ⟨rfl, hd⟩
  · intro ⟨hs, hd⟩
    exact ⟨s'.2, hd, by rw [← hs]⟩

end Machine

namespace Projection
variable {M : Machine S A} {N : Machine T B} {I : S → Prop}

def pair {M' : Machine S' A'} {N' : Machine T' B'} {J : S' → Prop} (p : Projection M N I)
    (q : Projection M' N' J) :
    Projection (M.pair M') (N.pair N') fun s => I s.1 ∧ J s.2 where
  view s := (p.view s.1, q.view s.2)
  part s
    | .inl a => (p.part s.1 a).map .inl
    | .inr a => (q.part s.2 a).map .inr
  init := congrArg₂ Prod.mk p.init q.init
  kept_init := ⟨p.kept_init, q.kept_init⟩
  kept := by
    intro s a s' ⟨hI, hJ⟩ hs
    cases a with
    | inl a =>
      obtain ⟨t, ht, rfl⟩ := Option.map_eq_some_iff.mp hs
      exact ⟨p.kept hI ht, hJ⟩
    | inr a =>
      obtain ⟨t, ht, rfl⟩ := Option.map_eq_some_iff.mp hs
      exact ⟨hI, q.kept hJ ht⟩
  moved := by
    intro s a s' b ⟨hI, hJ⟩ hs hb
    cases a with
    | inl a =>
      obtain ⟨t, ht, rfl⟩ := Option.map_eq_some_iff.mp hs
      obtain ⟨b, hp, rfl⟩ := Option.map_eq_some_iff.mp hb
      simp only [Machine.pair, p.moved hI ht hp, Option.map_some]
    | inr a =>
      obtain ⟨t, ht, rfl⟩ := Option.map_eq_some_iff.mp hs
      obtain ⟨b, hp, rfl⟩ := Option.map_eq_some_iff.mp hb
      simp only [Machine.pair, q.moved hJ ht hp, Option.map_some]
  still := by
    intro s a s' ⟨hI, hJ⟩ hs hb
    cases a with
    | inl a =>
      obtain ⟨t, ht, rfl⟩ := Option.map_eq_some_iff.mp hs
      rw [p.still hI ht (Option.map_eq_none_iff.mp hb)]
    | inr a =>
      obtain ⟨t, ht, rfl⟩ := Option.map_eq_some_iff.mp hs
      rw [q.still hJ ht (Option.map_eq_none_iff.mp hb)]

/-- **In its surroundings, a machine is what it projects to in the same surroundings.** -/
def beside (p : Projection M N I) (E : Machine D (B ⊕ C)) :
    Projection (M.beside p.part E) (N.beside (fun _ b => some b) E) fun s => I s.1 where
  view s := (p.view s.1, s.2)
  part s
    | .inl a => (p.part s.1 a).map .inl
    | .inr c => some (.inr c)
  init := congrArg (·, E.init) p.init
  kept_init := p.kept_init
  kept := by
    intro s a s' hI hs
    cases a with
    | inl a =>
      cases hp : p.part s.1 a with
      | none => exact p.kept hI ((Machine.beside_none hp).mp hs).1
      | some b => exact p.kept hI ((Machine.beside_some hp).mp hs).1
    | inr c =>
      rw [(Machine.beside_own.mp hs).1]
      exact hI
  moved := by
    intro s a s' b hI hs hb
    cases a with
    | inl a =>
      obtain ⟨b, hp, rfl⟩ := Option.map_eq_some_iff.mp hb
      obtain ⟨ht, hd⟩ := (Machine.beside_some hp).mp hs
      exact (Machine.beside_some rfl).mpr ⟨p.moved hI ht hp, hd⟩
    | inr c =>
      cases hb
      obtain ⟨ht, hd⟩ := Machine.beside_own.mp hs
      exact Machine.beside_own.mpr ⟨congrArg p.view ht, hd⟩
  still := by
    intro s a s' hI hs hb
    cases a with
    | inl a =>
      have hp := Option.map_eq_none_iff.mp hb
      obtain ⟨ht, hd⟩ := (Machine.beside_none hp).mp hs
      rw [p.still hI ht hp, hd]
    | inr c => cases hb

end Projection

end Wae.Transition
