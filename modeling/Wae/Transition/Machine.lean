import Mathlib.Data.List.Basic

/-! Machines that take labelled steps.

A system of several parties is one machine: an action says who moves and how the
surroundings answered, and the step it names is either taken or not enabled. A
run is a list of actions, so an interleaving is a list and nothing else, and a
concrete interleaving can be executed.

What is proved about a run is proved about its steps. `Steps P s as` says that
every step the run takes from `s` satisfies `P`, and `Steps.of_invariant` is the
one induction: a property that holds where the run starts and survives every
step that meets the run's conditions holds throughout. -/
namespace Wae.Transition

/-- Where a system starts, and what each action does to a state where it is enabled. -/
structure Machine (S A : Type) where
  init : S
  step : S → A → Option S

namespace Machine
variable {S A : Type} (M : Machine S A)

/-- The state a list of actions leads to, when each is enabled in its turn. -/
def run (s : S) : List A → Option S
  | [] => some s
  | a :: as => (M.step s a).bind fun s' => run s' as

theorem run_cons {s t : S} {a : A} {as : List A} (h : M.run s (a :: as) = some t) :
    ∃ s', M.step s a = some s' ∧ M.run s' as = some t :=
  Option.bind_eq_some_iff.mp h

theorem run_append (s : S) (as bs : List A) :
    M.run s (as ++ bs) = (M.run s as).bind fun t => M.run t bs := by
  induction as generalizing s with
  | nil => rfl
  | cons a as ih =>
    show (M.step s a).bind _ = ((M.step s a).bind _).bind _
    rw [Option.bind_assoc]
    apply congrArg
    funext s'
    exact ih s'

/-- Every step the run takes satisfies `P`. -/
def Steps (P : S → A → S → Prop) (s : S) : List A → Prop
  | [] => True
  | a :: as => ∀ s', M.step s a = some s' → P s a s' ∧ Steps P s' as

instance decidableSteps (P : S → A → S → Prop) [∀ s a s', Decidable (P s a s')] :
    (s : S) → (as : List A) → Decidable (M.Steps P s as)
  | _, [] => isTrue trivial
  | s, a :: as =>
    match h : M.step s a with
    | none => isTrue fun _ hs => nomatch h.symm.trans hs
    | some t =>
      have := decidableSteps P t as
      decidable_of_iff (P s a t ∧ M.Steps P t as) ⟨fun ht s' hs => by
        obtain rfl : t = s' := Option.some.inj (h.symm.trans hs)
        exact ht, fun ht => ht t h⟩

variable {M}

theorem Steps.mono {P Q : S → A → S → Prop} {s : S} {as : List A}
    (hPQ : ∀ s a s', M.step s a = some s' → P s a s' → Q s a s') (h : M.Steps P s as) :
    M.Steps Q s as := by
  induction as generalizing s with
  | nil => trivial
  | cons a as ih =>
    intro s' hs
    obtain ⟨hp, hrest⟩ := h s' hs
    exact ⟨hPQ s a s' hs hp, ih hrest⟩

theorem Steps.and {P Q : S → A → S → Prop} {s : S} {as : List A} (hP : M.Steps P s as)
    (hQ : M.Steps Q s as) : M.Steps (fun s a s' => P s a s' ∧ Q s a s') s as := by
  induction as generalizing s with
  | nil => trivial
  | cons a as ih =>
    intro s' hs
    exact ⟨⟨(hP s' hs).1, (hQ s' hs).1⟩, ih (hP s' hs).2 (hQ s' hs).2⟩

/-- A property of the actions alone holds of every step of a run of such actions. -/
theorem Steps.of_actions {P : A → Prop} {s : S} {as : List A} (h : ∀ a ∈ as, P a) :
    M.Steps (fun _ a _ => P a) s as := by
  induction as generalizing s with
  | nil => trivial
  | cons a as ih =>
    intro s' _
    exact ⟨h a (List.mem_cons_self ..), ih fun b hb => h b (List.mem_cons_of_mem a hb)⟩

/-- **The induction on runs.** Under the conditions `ok`, each step keeps `I` and
satisfies `P`; then every step of a run whose steps are all `ok` satisfies `P`. -/
theorem Steps.of_invariant {I : S → Prop} {ok P : S → A → S → Prop}
    (hstep : ∀ s a s', I s → ok s a s' → M.step s a = some s' → I s' ∧ P s a s')
    {s : S} {as : List A} (hs : I s) (hok : M.Steps ok s as) : M.Steps P s as := by
  induction as generalizing s with
  | nil => trivial
  | cons a as ih =>
    intro s' ha
    obtain ⟨hok', hrest⟩ := hok s' ha
    obtain ⟨hI, hP⟩ := hstep s a s' hs hok' ha
    exact ⟨hP, ih hI hrest⟩

/-- The same, where every step keeps the invariant. -/
theorem Steps.of_kept {I : S → Prop} {P : S → A → S → Prop}
    (hstep : ∀ s a s', I s → M.step s a = some s' → I s' ∧ P s a s')
    {s : S} (hs : I s) (as : List A) : M.Steps P s as :=
  .of_invariant (fun s a s' hI (_ : True) ha => hstep s a s' hI ha) hs
    (.of_actions fun _ _ => trivial)

/-- An invariant of the steps that are `ok` holds wherever a run of such steps leads. -/
theorem run_keeps_of {I : S → Prop} {ok : S → A → S → Prop}
    (hstep : ∀ s a s', I s → ok s a s' → M.step s a = some s' → I s')
    {s t : S} {as : List A} (hs : I s) (hok : M.Steps ok s as) (hrun : M.run s as = some t) :
    I t := by
  induction as generalizing s with
  | nil =>
    cases hrun
    exact hs
  | cons a as ih =>
    obtain ⟨s', ha, hrest⟩ := M.run_cons hrun
    obtain ⟨hok', hoks⟩ := hok s' ha
    exact ih (hstep s a s' hs hok' ha) hoks hrest

/-- An invariant of every step holds wherever a run leads. -/
theorem run_keeps {I : S → Prop} (hstep : ∀ s a s', I s → M.step s a = some s' → I s')
    {s t : S} {as : List A} (hs : I s) (hrun : M.run s as = some t) : I t :=
  run_keeps_of (fun s a s' h (_ : True) ha => hstep s a s' h ha) hs
    (.of_actions fun _ _ => trivial) hrun

/-- A measure that no step lowers, and that just the steps with `P` leave as it is, is at
the end of a run what it was exactly when every step was one with `P`. -/
theorem run_measure {I : S → Prop} {P : S → A → S → Prop} {f : S → Nat}
    (hstep : ∀ s a s', I s → M.step s a = some s' → I s' ∧ f s ≤ f s' ∧ (f s' = f s ↔ P s a s'))
    {s t : S} {as : List A} (hs : I s) (hrun : M.run s as = some t) :
    f s ≤ f t ∧ (f t = f s ↔ M.Steps P s as) := by
  induction as generalizing s with
  | nil =>
    cases hrun
    exact ⟨Nat.le_refl _, iff_of_true rfl trivial⟩
  | cons a as ih =>
    obtain ⟨s', ha, hrest⟩ := M.run_cons hrun
    obtain ⟨hI, hle, heq⟩ := hstep s a s' hs ha
    obtain ⟨hle', heq'⟩ := ih hI hrest
    refine ⟨Nat.le_trans hle hle', fun h => ?_, fun h => ?_⟩
    · intro s'' ha'
      obtain rfl : s' = s'' := Option.some.inj (ha.symm.trans ha')
      exact ⟨heq.mp (by omega), heq'.mp (by omega)⟩
    · obtain ⟨hP, hsteps⟩ := h s' ha
      rw [heq'.mpr hsteps, heq.mpr hP]

/-! ### Where a run can still go -/

/-- Actions of the kind `P` can take the machine from `s` to where `Q` holds. -/
def Leads (M : Machine S A) (P : A → Prop) (Q : S → Prop) (s : S) : Prop :=
  ∃ as, (∀ a ∈ as, P a) ∧ ∃ t, M.run s as = some t ∧ Q t

theorem Leads.here {P : A → Prop} {Q : S → Prop} {s : S} (hQ : Q s) : M.Leads P Q s :=
  ⟨[], nofun, s, rfl, hQ⟩

theorem Leads.step {P : A → Prop} {Q : S → Prop} {s s' : S} {a : A} (ha : P a)
    (hs : M.step s a = some s') (h : M.Leads P Q s') : M.Leads P Q s := by
  obtain ⟨as, has, t, hrun, hQ⟩ := h
  refine ⟨a :: as, fun b hb => ?_, t, ?_, hQ⟩
  · rcases List.mem_cons.mp hb with rfl | hb
    · exact ha
    · exact has b hb
  · rw [run, hs]
    exact hrun

theorem Leads.trans {P : A → Prop} {Q R : S → Prop} {s : S} (h : M.Leads P Q s)
    (hQ : ∀ t, Q t → M.Leads P R t) : M.Leads P R s := by
  obtain ⟨as, has, t, hrun, ht⟩ := h
  obtain ⟨bs, hbs, u, hrun', hu⟩ := hQ t ht
  refine ⟨as ++ bs, fun a ha => ?_, u, ?_, hu⟩
  · exact (List.mem_append.mp ha).elim (has a) (hbs a)
  · rw [M.run_append, hrun]
    exact hrun'

theorem Leads.mono {P P' : A → Prop} {Q Q' : S → Prop} {s : S} (h : M.Leads P Q s)
    (hP : ∀ a, P a → P' a) (hQ : ∀ t, Q t → Q' t) : M.Leads P' Q' s := by
  obtain ⟨as, has, t, hrun, ht⟩ := h
  exact ⟨as, fun a ha => hP a (has a ha), t, hrun, hQ t ht⟩

/-- What the actions of the kind keep still holds there. -/
theorem Leads.keeping {P : A → Prop} {Q J : S → Prop} {s : S} (h : M.Leads P Q s)
    (hstep : ∀ s a s', J s → P a → M.step s a = some s' → J s') (hJ : J s) :
    M.Leads P (fun t => Q t ∧ J t) s := by
  obtain ⟨as, has, t, hrun, ht⟩ := h
  exact ⟨as, has, t, hrun, ht, run_keeps_of hstep hJ (.of_actions has) hrun⟩

/-- A machine inside another leads it along. -/
theorem Leads.inside {T B : Type} {N : Machine T B} {P : B → Prop} {Q : T → Prop} {t : T}
    (h : N.Leads P Q t) (put : T → S) (act : B → A)
    (hstep : ∀ t b t', P b → N.step t b = some t' → M.step (put t) (act b) = some (put t')) :
    M.Leads (fun _ => True) (fun s => ∃ t', Q t' ∧ s = put t') (put t) := by
  obtain ⟨bs, hbs, u, hrun, hu⟩ := h
  refine ⟨bs.map act, fun _ _ => trivial, put u, ?_, u, hu, rfl⟩
  clear hu
  induction bs generalizing t with
  | nil =>
    cases hrun
    rfl
  | cons b bs ih =>
    obtain ⟨t', hs, hrest⟩ := N.run_cons hrun
    show (M.step (put t) (act b)).bind _ = _
    rw [hstep t b t' (hbs b (List.mem_cons_self ..)) hs]
    exact ih (fun c hc => hbs c (List.mem_cons_of_mem b hc)) hrest

end Machine

end Wae.Transition
