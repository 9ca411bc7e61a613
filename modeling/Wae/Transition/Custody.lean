import Wae.Transition.Machine

/-! Operations that keep what they acquire as bare handles.

An operation acquires resources one at a time, and releases each or hands it to an
owner, who releases it on leaving. Until then the resource is known to the operation
alone, by a handle in its locals, and where it leaves those behind nobody is left to
release the resource.

`keepers` counts who still answers for a resource: its owners, its releases so far, and
the operation while it holds the handle. An operation that follows the discipline
acquires a resource with one keeper and never adds one, so a resource is settled at the
end exactly when its keeper was never lost (`kept_iff`). -/
namespace Wae.Transition

/-- What has become of a resource, with owners of the kinds `K`. -/
structure Resource (K : Type) where
  owners : List K
  releases : Nat
  deriving DecidableEq, Repr

namespace Resource
variable {K : Type}

def fresh : Resource K := ⟨[], 0⟩

def release (x : Resource K) : Resource K := {x with releases := x.releases + 1}

def hand (owner : K) (x : Resource K) : Resource K := {x with owners := owner :: x.owners}

/-- An owner leaves, and may release the resource on leaving. -/
def leave [DecidableEq K] (owner : K) (releases : Bool) (x : Resource K) : Resource K where
  owners := x.owners.erase owner
  releases := x.releases + releases.toNat

/-- The releases made, and those that owners are to make. -/
def keepers (x : Resource K) : Nat := x.owners.length + x.releases

/-- One release, or one owner who is to make it. -/
def Settled (x : Resource K) : Prop := x.keepers = 1

instance (x : Resource K) : Decidable x.Settled := inferInstanceAs (Decidable (x.keepers = 1))

@[simp] theorem keepers_fresh : (fresh : Resource K).keepers = 0 := rfl

@[simp] theorem keepers_release (x : Resource K) : x.release.keepers = x.keepers + 1 := rfl

@[simp] theorem keepers_hand (owner : K) (x : Resource K) :
    (x.hand owner).keepers = x.keepers + 1 := by
  simp [keepers, hand]
  omega

theorem keepers_leave [DecidableEq K] {owner : K} {x : Resource K} (h : owner ∈ x.owners)
    (releases : Bool) : (x.leave owner releases).keepers + (!releases).toNat = x.keepers := by
  have hlen := List.length_erase_of_mem h
  have hpos := List.length_pos_of_mem h
  cases releases <;> simp [keepers, leave] <;> omega

end Resource

/-- What an operation does on an answer, and where it stands then. -/
inductive Turn (K P : Type) where
  | goes (next : P)
  | acquires (next : Nat → P)
  | releases (r : Nat) (next : P)
  | hands (r : Nat) (owner : K) (next : P)

namespace Turn
variable {K P Q : Type}

def map (f : P → Q) : Turn K P → Turn K Q
  | goes next => goes (f next)
  | acquires next => acquires fun r => f (next r)
  | releases r next => releases r (f next)
  | hands r owner next => hands r owner (f next)

/-- The discipline: a handle is kept until its resource is released or handed over,
unless the operation `abandons` it. -/
def Follows (held : P → Option Nat) (p : P) (abandons : Bool) : Turn K P → Prop
  | goes q => (abandons = true → (held p).isSome ∧ held q = none) ∧
      (abandons = false → held q = held p)
  | acquires q => abandons = false ∧ held p = none ∧ ∀ r, held (q r) = some r
  | releases r q | hands r _ q => abandons = false ∧ held p = some r ∧ held q = none

section Follows
variable {held : P → Option Nat} {p q : P} {abandons : Bool}

@[simp] theorem follows_goes :
    (goes q : Turn K P).Follows held p abandons ↔
      (abandons = true → (held p).isSome ∧ held q = none) ∧
        (abandons = false → held q = held p) := Iff.rfl

@[simp] theorem follows_acquires (q : Nat → P) :
    (acquires q : Turn K P).Follows held p abandons ↔
      abandons = false ∧ held p = none ∧ ∀ r, held (q r) = some r := Iff.rfl

@[simp] theorem follows_releases (r : Nat) :
    (releases r q : Turn K P).Follows held p abandons ↔
      abandons = false ∧ held p = some r ∧ held q = none := Iff.rfl

@[simp] theorem follows_hands (r : Nat) (owner : K) :
    (hands r owner q).Follows held p abandons ↔
      abandons = false ∧ held p = some r ∧ held q = none := Iff.rfl

theorem Follows.map {held' : Q → Option Nat} {f : P → Q} {q : Q} {t : Turn K P}
    (h : t.Follows held p abandons) (hf : ∀ p, held' (f p) = held p) (hq : held' q = held p) :
    (t.map f).Follows held' q abandons := by
  cases t with
  | goes => simpa [Turn.map, hf, hq] using h
  | acquires => simpa [Turn.map, hf, hq] using h
  | releases => simpa [Turn.map, hf, hq] using h
  | hands => simpa [Turn.map, hf, hq] using h

end Follows

end Turn

/-- An operation with the points `P`, answered by `A`; its owners leave by `L`. -/
structure Operation (K L P A : Type) where
  turn : P → A → Option (Turn K P)
  /-- The handle in its locals. -/
  held : P → Option Nat
  /-- Where it leaves the handle behind. -/
  abandons : P → A → Bool
  owner : L → K
  releases : L → Bool
  follows : ∀ p a t, turn p a = some t → t.Follows held p (abandons p a)

/-- The resources acquired so far, and where the operation stands. -/
structure Custody (K P : Type) where
  resources : List (Resource K)
  point : P

namespace Custody

inductive Action (L A : Type) where
  | answer (a : A)
  /-- An owner of the resource leaves. -/
  | leave (r : Nat) (l : L)
  deriving DecidableEq

variable {K L P A : Type} (O : Operation K L P A)

def take (s : Custody K P) : Turn K P → Custody K P
  | .goes next => {s with point := next}
  | .acquires next => ⟨s.resources ++ [.fresh], next s.resources.length⟩
  | .releases r next => ⟨s.resources.modify r .release, next⟩
  | .hands r owner next => ⟨s.resources.modify r (.hand owner), next⟩

def owned [DecidableEq K] (s : Custody K P) (r : Nat) (owner : K) : Bool :=
  s.resources[r]?.any (owner ∈ ·.owners)

def step [DecidableEq K] (s : Custody K P) : Action L A → Option (Custody K P)
  | .answer a => (O.turn s.point a).map s.take
  | .leave r l =>
    if s.owned r (O.owner l) then
      some {s with resources := s.resources.modify r (.leave (O.owner l) (O.releases l))}
    else none

def machine [DecidableEq K] (p : P) : Machine (Custody K P) (Action L A) := ⟨⟨[], p⟩, step O⟩

/-! ### Keepers -/

/-- Who answers for a resource: its own keepers, and the operation that holds it. -/
def keepers (s : Custody K P) (r : Nat) : Nat :=
  s.resources[r]?.elim 0 Resource.keepers + if O.held s.point = some r then 1 else 0

/-- The keepers a step loses. -/
def lost (s : Custody K P) : Action L A → Nat → Nat
  | .answer a, r => if O.abandons s.point a = true ∧ O.held s.point = some r then 1 else 0
  | .leave r' l, r => if r' = r then (!O.releases l).toNat else 0

/-- The step loses no keeper. -/
def Keeps (s : Custody K P) : Action L A → Custody K P → Prop
  | .answer a, _ => O.abandons s.point a = false
  | .leave _ l, _ => O.releases l = true

instance (s : Custody K P) : (a : Action L A) → (s' : Custody K P) → Decidable (Keeps O s a s')
  | .answer a, _ => inferInstanceAs (Decidable (O.abandons s.point a = false))
  | .leave _ l, _ => inferInstanceAs (Decidable (O.releases l = true))

/-- The handle the operation holds is one it has acquired. -/
def Within (s : Custody K P) : Prop := ∀ r, O.held s.point = some r → r < s.resources.length

/-- Every resource has its keeper. -/
def Kept (s : Custody K P) : Prop := ∀ r, r < s.resources.length → keepers O s r = 1

variable {O} {s s' t : Custody K P} {a : Action L A}

theorem lost_of_keeps (hk : Keeps O s a s') (r : Nat) : lost O s a r = 0 := by
  cases a with
  | answer a => simp [lost, show O.abandons s.point a = false from hk]
  | leave r' l => simp [lost, show O.releases l = true from hk]

theorem keepers_take {a : A} {turn : Turn K P} (ht : O.turn s.point a = some turn) {r : Nat}
    (hr : r < s.resources.length) :
    keepers O (s.take turn) r + lost O s (.answer a) r = keepers O s r := by
  have hf := O.follows _ _ _ ht
  cases turn with
  | goes q =>
    cases ha : O.abandons s.point a with
    | true =>
      obtain ⟨_, hq⟩ := hf.1 ha
      simp [keepers, take, lost, ha, hq]
    | false => simp [keepers, take, lost, ha, hf.2 ha]
  | acquires q =>
    obtain ⟨ha, hp, hq⟩ := hf
    simp [keepers, take, lost, ha, hp, hq, List.getElem?_append_left hr, (Nat.ne_of_lt hr).symm]
  | releases r' q | hands r' _ q =>
    obtain ⟨ha, hp, hq⟩ := hf
    by_cases h : r' = r
    · subst h
      simp [keepers, take, lost, ha, hp, hq, hr]
    · simp [keepers, take, lost, ha, hp, hq, h]

/-- Where the operation holds nothing, a resource's keepers are its own. -/
theorem kept_iff_settled (h : O.held t.point = none) :
    Kept O t ↔ ∀ x ∈ t.resources, x.Settled := by
  simp only [Kept, keepers, h, reduceCtorEq, if_false, Nat.add_zero, List.forall_mem_iff_getElem]
  refine forall_congr' fun r => forall_congr' fun hr => ?_
  rw [List.getElem?_eq_getElem hr]
  rfl

section Step
variable [DecidableEq K]

/-- **Conservation.** What a step takes from a resource's keepers is what it loses. -/
theorem keepers_step (hs : step O s a = some s') {r : Nat} (hr : r < s.resources.length) :
    keepers O s' r + lost O s a r = keepers O s r := by
  cases a with
  | answer a =>
    obtain ⟨turn, ht, rfl⟩ := Option.map_eq_some_iff.mp hs
    exact keepers_take ht hr
  | leave r' l =>
    simp only [step, Option.ite_none_right_eq_some, Option.some.injEq] at hs
    obtain ⟨ho, rfl⟩ := hs
    by_cases h : r' = r
    · subst h
      have hx := Resource.keepers_leave (x := s.resources[r']) (by simpa [owned, hr] using ho)
        (O.releases l)
      simp only [keepers, lost, List.getElem?_modify_eq, List.getElem?_eq_getElem hr,
        Option.map_eq_map, Option.map_some, Option.elim_some, if_true]
      omega
    · simp [keepers, lost, h]

/-- What a step acquires, the operation holds. -/
theorem keepers_new (hs : step O s a = some s') {r : Nat} (hr : s.resources.length ≤ r)
    (hr' : r < s'.resources.length) : keepers O s' r = 1 := by
  cases a with
  | answer a =>
    obtain ⟨turn, ht, rfl⟩ := Option.map_eq_some_iff.mp hs
    have hf := O.follows _ _ _ ht
    cases turn with
    | acquires q =>
      obtain rfl : r = s.resources.length := by
        simp only [take, List.length_append, List.length_singleton] at hr'
        omega
      simp [keepers, take, hf.2.2]
    | goes | releases | hands =>
      simp only [take, List.length_modify] at hr'
      omega
  | leave r' l =>
    simp only [step, Option.ite_none_right_eq_some, Option.some.injEq] at hs
    obtain ⟨_, rfl⟩ := hs
    simp only [List.length_modify] at hr'
    omega

theorem length_step (hs : step O s a = some s') : s.resources.length ≤ s'.resources.length := by
  cases a with
  | answer a =>
    obtain ⟨turn, ht, rfl⟩ := Option.map_eq_some_iff.mp hs
    cases turn <;> simp [take]
  | leave r' l =>
    simp only [step, Option.ite_none_right_eq_some, Option.some.injEq] at hs
    obtain ⟨_, rfl⟩ := hs
    simp

theorem within_step (h : Within O s) (hs : step O s a = some s') : Within O s' := by
  have hlen := length_step hs
  intro r hr
  cases a with
  | answer a =>
    obtain ⟨turn, ht, rfl⟩ := Option.map_eq_some_iff.mp hs
    have hf := O.follows _ _ _ ht
    cases turn with
    | goes q =>
      cases ha : O.abandons s.point a with
      | true => cases (hf.1 ha).2.symm.trans hr
      | false => exact h r ((hf.2 ha).symm.trans hr)
    | acquires q =>
      obtain rfl := Option.some.inj ((hf.2.2 _).symm.trans hr)
      simp [take]
    | releases r' q | hands r' _ q => cases hf.2.2.symm.trans hr
  | leave r' l =>
    simp only [step, Option.ite_none_right_eq_some, Option.some.injEq] at hs
    obtain ⟨_, rfl⟩ := hs
    exact Nat.lt_of_lt_of_le (h r hr) hlen

theorem keepers_le (hs : step O s a = some s') {r : Nat} (hr : r < s.resources.length) :
    keepers O s' r ≤ keepers O s r :=
  (keepers_step hs hr).symm ▸ Nat.le_add_right ..

/-- A step that loses no keeper leaves every resource with one. -/
theorem kept_step (h : Kept O s) (hk : Keeps O s a s') (hs : step O s a = some s') :
    Kept O s' := by
  intro r hr'
  by_cases hr : r < s.resources.length
  · have := keepers_step hs hr
    rwa [lost_of_keeps hk, Nat.add_zero, h r hr] at this
  · exact keepers_new hs (Nat.le_of_not_lt hr) hr'

/-- A step that loses a keeper leaves a resource without one. -/
theorem unkept_step (hw : Within O s) (h : Kept O s) (hk : ¬ Keeps O s a s')
    (hs : step O s a = some s') : ∃ r, r < s.resources.length ∧ keepers O s' r = 0 := by
  suffices ∃ r, r < s.resources.length ∧ lost O s a r = 1 by
    obtain ⟨r, hr, hl⟩ := this
    have := keepers_step hs hr
    have := h r hr
    exact ⟨r, hr, by omega⟩
  cases a with
  | answer a =>
    have ha : O.abandons s.point a = true := by simpa [Keeps] using hk
    obtain ⟨turn, ht, rfl⟩ := Option.map_eq_some_iff.mp hs
    have hf := O.follows _ _ _ ht
    cases turn with
    | goes q =>
      obtain ⟨r, hr⟩ := Option.isSome_iff_exists.mp (hf.1 ha).1
      exact ⟨r, hw r hr, by simp [lost, ha, hr]⟩
    | acquires | releases | hands => cases ha.symm.trans hf.1
  | leave r l =>
    have hl : O.releases l = false := by simpa [Keeps] using hk
    simp only [step, Option.ite_none_right_eq_some] at hs
    refine ⟨r, ?_, by simp [lost, hl]⟩
    by_contra hr
    simp [owned, List.getElem?_eq_none (Nat.le_of_not_lt hr)] at hs

/-! ### Runs -/

/-- No resource gains a keeper after it was acquired. -/
theorem keepers_run {p : P} {as : List (Action L A)} (hrun : (machine O p).run s as = some t)
    {r : Nat} (hr : r < s.resources.length) :
    r < t.resources.length ∧ keepers O t r ≤ keepers O s r := by
  induction as generalizing s with
  | nil =>
    cases hrun
    exact ⟨hr, Nat.le_refl _⟩
  | cons a as ih =>
    obtain ⟨s', hs, hrest⟩ := (machine O p).run_cons hrun
    obtain ⟨hr', hle⟩ := ih hrest (Nat.lt_of_lt_of_le hr (length_step hs))
    exact ⟨hr', Nat.le_trans hle (keepers_le hs hr)⟩

/-- **Nothing is released twice.** However a run went, nothing has two owners either, or
an owner and a release. -/
theorem keepers_le_one {p : P} {as : List (Action L A)}
    (hrun : (machine O p).run (machine O p).init as = some t) {r : Nat}
    (hr : r < t.resources.length) : keepers O t r ≤ 1 := by
  refine Machine.run_keeps (I := fun s => ∀ r, r < s.resources.length → keepers O s r ≤ 1)
    (fun s a s' h hs r hr' => ?_) (fun r hr => absurd hr (Nat.not_lt_zero r)) hrun r hr
  by_cases hr : r < s.resources.length
  · exact Nat.le_trans (keepers_le hs hr) (h r hr)
  · exact Nat.le_of_eq (keepers_new hs (Nat.le_of_not_lt hr) hr')

/-- Where every resource has its keeper, a run keeps it so exactly when no step of it
loses one. -/
theorem kept_iff_from {p : P} {as : List (Action L A)} (hw : Within O s) (h : Kept O s)
    (hrun : (machine O p).run s as = some t) :
    Kept O t ↔ (machine O p).Steps (Keeps O) s as := by
  induction as generalizing s with
  | nil =>
    cases hrun
    exact iff_of_true h trivial
  | cons a as ih =>
    obtain ⟨s', hs, hrest⟩ := (machine O p).run_cons hrun
    by_cases hk : Keeps O s a s'
    · rw [ih (within_step hw hs) (kept_step h hk hs) hrest]
      refine ⟨fun hsteps u hu => ?_, fun hsteps => (hsteps s' hs).2⟩
      obtain rfl := Option.some.inj (hs.symm.trans hu)
      exact ⟨hk, hsteps⟩
    · refine iff_of_false (fun ht => ?_) fun hsteps => hk (hsteps s' hs).1
      obtain ⟨r, hr, h0⟩ := unkept_step hw h hk hs
      obtain ⟨hr', hle⟩ := keepers_run hrest (Nat.lt_of_lt_of_le hr (length_step hs))
      have := ht r hr'
      omega

/-- **Every resource has its keeper** exactly when no step of the run lost one. -/
theorem kept_iff {p : P} (hp : O.held p = none) {as : List (Action L A)}
    (hrun : (machine O p).run (machine O p).init as = some t) :
    Kept O t ↔ (machine O p).Steps (Keeps O) (machine O p).init as :=
  kept_iff_from (fun _ hr => by cases hp.symm.trans hr)
    (fun r hr => absurd hr (Nat.not_lt_zero r)) hrun

end Step

end Custody

end Wae.Transition
