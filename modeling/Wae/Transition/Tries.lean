import Wae.Transition.Machine

/-! Machines that try one alternative after another.

Such a machine comes to its alternatives as a list, and each attempt has an outcome: it
succeeds, or it fails with an error. What the machine owes is said of one attempt
(`Tries`): after a success it is through, after a failure it goes on to the next
alternative, and after the last one it has lost, with that one's error. `Tries.serve_eq` is
the induction: it has made the shortest run of attempts that ends in a success, or all of
them. -/
namespace Wae.Transition

section Shortest
variable {α : Type} (failed : α → Bool)

/-- The shortest part from the front of the list that ends in its first success; the whole
list, where there is none. -/
def Shortest (xs ys : List α) : Prop :=
  (∃ before x after, xs = before ++ x :: after ∧ (∀ y ∈ before, failed y = true) ∧
    failed x = false ∧ ys = before ++ [x]) ∨
  ((∀ y ∈ xs, failed y = true) ∧ ys = xs)

def attempted : List α → List α
  | [] => []
  | x :: xs => if failed x then x :: attempted xs else [x]

theorem shortest_attempted (xs : List α) : Shortest failed xs (attempted failed xs) := by
  induction xs with
  | nil => exact .inr ⟨by simp, rfl⟩
  | cons x xs ih =>
    cases hx : failed x with
    | false => exact .inl ⟨[], x, xs, rfl, by simp, hx, by simp [attempted, hx]⟩
    | true =>
      rcases ih with ⟨before, y, after, hxs, hbefore, hy, hatt⟩ | ⟨hall, hatt⟩
      · refine .inl ⟨x :: before, y, after, by rw [hxs]; rfl, ?_, hy, by simp [attempted, hx, hatt]⟩
        simpa [hx] using hbefore
      · refine .inr ⟨?_, by simp [attempted, hx, hatt]⟩
        simpa [hx] using hall

end Shortest

/-- The alternatives are `α`s, an attempt has an outcome in `ω`, and fails with an `E`. -/
structure Tries {S A : Type} (M : Machine S A) (α ω E : Type) where
  /-- The alternatives tried so far, with the one being tried. -/
  made : S → List α
  /-- It stands at an attempt. -/
  trying : S → Bool
  /-- What the surroundings do when an attempt has this outcome. -/
  replies : ω → List A
  error : ω → Option E
  /-- It tries an alternative, and these are left. -/
  tries : α → List α → S → Prop
  won : S → Prop
  lost : E → S → Prop
  trying_tries : ∀ a as s, tries a as s → trying s = true
  trying_won : ∀ s, won s → trying s = false
  wins : ∀ a as s o, tries a as s → error o = none →
    ∃ t, M.run s (replies o) = some t ∧ won t ∧ made t = made s
  goesOn : ∀ a b as s o e, tries a (b :: as) s → error o = some e →
    ∃ t, M.run s (replies o) = some t ∧ tries b as t ∧ made t = made s ++ [b]
  loses : ∀ a s o e, tries a [] s → error o = some e →
    ∃ t, M.run s (replies o) = some t ∧ lost e t ∧ made t = made s

namespace Tries
variable {S A α ω E : Type} {M : Machine S A} (T : Tries M α ω E)

/-- The machine, with these outcomes for its attempts in turn, as long as it makes any. -/
def serve : List ω → S → Option S
  | [], s => some s
  | o :: os, s => if T.trying s then (M.run s (T.replies o)).bind (serve os) else some s

def failed (x : α × ω) : Bool := (T.error x.2).isSome

variable {T}

theorem serve_over {s : S} (h : T.trying s = false) (os : List ω) : T.serve os s = some s := by
  cases os <;> simp [serve, h]

theorem serve_cons {a : α} {as : List α} {s : S} (h : T.tries a as s) (o : ω) (os : List ω) :
    T.serve (o :: os) s = (M.run s (T.replies o)).bind (T.serve os) := by
  simp only [serve, T.trying_tries a as s h, if_true]

/-- A success is the end of it. -/
theorem serve_wins {a : α} {as : List α} {s : S} (h : T.tries a as s) {o : ω}
    (ho : T.error o = none) (os : List ω) :
    ∃ t, T.serve (o :: os) s = some t ∧ T.won t ∧ T.made t = T.made s := by
  obtain ⟨t, hrun, hwon, ht⟩ := T.wins a as s o h ho
  refine ⟨t, ?_, hwon, ht⟩
  rw [serve_cons h, hrun]
  exact serve_over (T.trying_won t hwon) os

/-- **It stops at the first success**, and loses with the last error. -/
theorem serve_eq {x : α × ω} {xs : List (α × ω)} {s : S} (h : T.tries x.1 (xs.map Prod.fst) s)
    {before : List α} (hmade : T.made s = before ++ [x.1]) :
    ∃ t, T.serve ((x :: xs).map Prod.snd) s = some t ∧
      T.made t = before ++ (attempted T.failed (x :: xs)).map Prod.fst ∧
      ((∃ y ∈ x :: xs, T.error y.2 = none) → T.won t) ∧
      ((∀ y ∈ x :: xs, T.failed y = true) →
        ∃ e, T.error ((x :: xs).getLast (List.cons_ne_nil x xs)).2 = some e ∧ T.lost e t) := by
  induction xs generalizing x s before with
  | nil =>
    cases hx : T.error x.2 with
    | none =>
      obtain ⟨t, hserve, hwon, ht⟩ := serve_wins h hx []
      refine ⟨t, hserve, ?_, fun _ => hwon, fun hall => ?_⟩
      · simp [ht, hmade, attempted, failed, hx]
      · simp [failed, hx] at hall
    | some e =>
      obtain ⟨t, hrun, hlost, ht⟩ := T.loses _ _ x.2 e h hx
      refine ⟨t, ?_, ?_, fun hsome => ?_, fun _ => ⟨e, hx, hlost⟩⟩
      · rw [List.map_cons, serve_cons h, hrun]
        rfl
      · simp [ht, hmade, attempted, failed, hx]
      · simp [hx] at hsome
  | cons x' xs ih =>
    cases hx : T.error x.2 with
    | none =>
      obtain ⟨t, hserve, hwon, ht⟩ := serve_wins h hx ((x' :: xs).map Prod.snd)
      refine ⟨t, hserve, ?_, fun _ => hwon, fun hall => ?_⟩
      · simp [ht, hmade, attempted, failed, hx]
      · simp [failed, hx] at hall
    | some e =>
      obtain ⟨s', hrun, hnext, hs'⟩ := T.goesOn _ _ _ _ x.2 e h hx
      have hmade' : T.made s' = (before ++ [x.1]) ++ [x'.1] := by rw [hs', hmade]
      obtain ⟨t, hserve, ht, hwon, hlost⟩ := ih hnext hmade'
      refine ⟨t, ?_, ?_, fun hsome => hwon ?_, fun hall => ?_⟩
      · rw [List.map_cons, serve_cons h, hrun]
        exact hserve
      · have hfirst : attempted T.failed (x :: x' :: xs) = x :: attempted T.failed (x' :: xs) :=
          if_pos (by simp [failed, hx])
        rw [ht, hfirst, List.map_cons, List.append_assoc]
        rfl
      · simpa [hx] using hsome
      · obtain ⟨e', he', hl⟩ := hlost fun y hy => hall y (.tail _ hy)
        exact ⟨e', by rwa [List.getLast_cons (List.cons_ne_nil x' xs)], hl⟩

/-- The same, from where it stands at its first attempt. -/
theorem serve_first (x : α × ω) (xs : List (α × ω)) {s : S}
    (h : T.tries x.1 (xs.map Prod.fst) s) (hmade : T.made s = [x.1]) :
    ∃ t, T.serve ((x :: xs).map Prod.snd) s = some t ∧
      T.made t = (attempted T.failed (x :: xs)).map Prod.fst ∧
      ((∃ y ∈ x :: xs, T.error y.2 = none) → T.won t) ∧
      ((∀ y ∈ x :: xs, T.failed y = true) →
        ∃ e, T.error ((x :: xs).getLast (List.cons_ne_nil x xs)).2 = some e ∧ T.lost e t) :=
  serve_eq h (show T.made s = [] ++ [x.1] from hmade)

end Tries

end Wae.Transition
