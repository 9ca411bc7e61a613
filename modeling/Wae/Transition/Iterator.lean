import Mathlib.Data.List.Basic

/-! Iterators, and chains of pointers.

An iterator is what a call of its `next` does. It follows a list when each call returns
the next of its items, and none from the end on: `Follows` is what one call owes, and
`Follows.calls` is the induction on the calls.

A chain leads from a pointer over nodes to a null pointer. Whatever has such a chain is
finite and comes to no node twice. -/
namespace Wae.Transition

structure Iterator (S α : Type) where
  /-- What a call returns and the iterator after it, if the call returns. -/
  next : S → Option (Option α × S)

namespace Iterator
variable {S T α : Type} (I : Iterator S α)

/-- What so many calls return, and the iterator after them. -/
def calls : Nat → S → Option (List (Option α) × S)
  | 0, s => some ([], s)
  | n + 1, s => (I.next s).bind fun (item, s') =>
    (calls n s').map fun (items, t) => (item :: items, t)

/-- What a call owes, `R` being where the iterator stands when these items are left. -/
structure Follows (R : S → List α → Prop) : Prop where
  item : ∀ s x xs, R s (x :: xs) → ∃ s', I.next s = some (some x, s') ∧ R s' xs
  ends : ∀ s, R s [] → ∃ s', I.next s = some (none, s') ∧ R s' []

variable {I}

/-- **Each item once, in order, and then none for ever.** -/
theorem Follows.calls {R : S → List α → Prop} (h : I.Follows R) {s : S} {xs : List α}
    (hs : R s xs) (n : Nat) :
    ∃ t, I.calls n s = some ((List.range n).map (xs[·]?), t) ∧ R t (xs.drop n) := by
  induction n generalizing s xs with
  | zero => exact ⟨s, rfl, hs⟩
  | succ n ih =>
    cases xs with
    | nil =>
      obtain ⟨s', hnext, hs'⟩ := h.ends s hs
      obtain ⟨t, hcalls, ht⟩ := ih hs'
      refine ⟨t, ?_, by simpa using ht⟩
      simp [Iterator.calls, hnext, hcalls, List.range_succ_eq_map, Function.comp_def]
    | cons x xs =>
      obtain ⟨s', hnext, hs'⟩ := h.item s x xs hs
      obtain ⟨t, hcalls, ht⟩ := ih hs'
      refine ⟨t, ?_, ht⟩
      simp [Iterator.calls, hnext, hcalls, List.range_succ_eq_map]

/-- An iterator inside another returns there what it returns. -/
theorem calls_inside {J : Iterator T α} {put : S → T}
    (hnext : ∀ s item s', I.next s = some (item, s') → J.next (put s) = some (item, put s'))
    {n : Nat} {s t : S} {items : List (Option α)} (h : I.calls n s = some (items, t)) :
    J.calls n (put s) = some (items, put t) := by
  induction n generalizing s items with
  | zero =>
    cases h
    rfl
  | succ n ih =>
    obtain ⟨⟨item, s'⟩, hs, h⟩ := Option.bind_eq_some_iff.mp h
    obtain ⟨⟨items, t⟩, hcalls, h⟩ := Option.map_eq_some_iff.mp h
    cases h
    simp [calls, hnext s item s' hs, ih hcalls]

end Iterator

/-- From the pointer, the links lead over these nodes to a null pointer. -/
inductive Chain {ν : Type} (link : ν → Option ν) : Option ν → List ν → Prop
  | nil : Chain link none []
  | cons (p : ν) (ps : List ν) : Chain link (link p) ps → Chain link (some p) (p :: ps)

namespace Chain
variable {ν : Type} {link : ν → Option ν} {p : Option ν} {ps qs : List ν}

theorem unique (h : Chain link p ps) (h' : Chain link p qs) : ps = qs := by
  induction h generalizing qs with
  | nil =>
    cases h'
    rfl
  | cons p ps _ ih =>
    cases h' with
    | cons _ qs hqs => rw [ih hqs]

/-- From a node on, it is the chain of that node. -/
theorem of_append {q : ν} (h : Chain link p (ps ++ q :: qs)) : Chain link (some q) (q :: qs) := by
  induction ps generalizing p with
  | nil =>
    cases h with
    | cons _ _ hrest => exact .cons q qs hrest
  | cons r ps ih =>
    cases h with
    | cons _ _ hrest => exact ih hrest

/-- A chain comes to no node twice. -/
theorem nodup (h : Chain link p ps) : ps.Nodup := by
  induction h with
  | nil => exact List.nodup_nil
  | cons p ps hrest ih =>
    refine List.nodup_cons.mpr ⟨fun hmem => ?_, ih⟩
    -- It would be the chain of `p` itself, and longer.
    obtain ⟨xs, ys, rfl⟩ := List.append_of_mem hmem
    have hagain := congrArg List.length ((Chain.cons p _ hrest).unique hrest.of_append)
    simp at hagain
    omega

end Chain

end Wae.Transition
