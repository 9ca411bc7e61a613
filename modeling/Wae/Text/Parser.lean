import Mathlib.Data.List.Basic

/-! Parsers that read a list from its front. -/
namespace Wae.Text

/-- A parser of `β`s. Where it succeeds, what it has not taken is a suffix of its input;
where it fails it has taken nothing. -/
structure Parser (σ β : Type) where
  run : List σ → Option (β × List σ)
  suffix : ∀ {xs b ys}, run xs = some (b, ys) → ys <:+ xs

namespace Parser

variable {σ β γ : Type}

instance : Monad (Parser σ) where
  pure b := ⟨fun xs => some (b, xs), by rintro xs b ys ⟨rfl, rfl⟩; exact List.suffix_refl _⟩
  bind p f := {
    run := fun xs => (p.run xs).bind fun r => (f r.1).run r.2
    suffix := by
      intro xs c zs h
      obtain ⟨⟨b, ys⟩, hp, hf⟩ := Option.bind_eq_some_iff.mp h
      exact ((f b).suffix hf).trans (p.suffix hp) }

def fail : Parser σ β := ⟨fun _ => none, nofun⟩

/-- The second parser, where the first one fails. -/
def orElse (p q : Parser σ β) : Parser σ β where
  run xs := (p.run xs).or (q.run xs)
  suffix {xs b ys} h := by
    rcases Option.or_eq_some_iff.mp h with hp | ⟨_, hq⟩
    · exact p.suffix hp
    · exact q.suffix hq

/-- The parser, or nothing where it fails. -/
def optional (p : Parser σ β) : Parser σ (Option β) :=
  orElse (do return some (← p)) (pure none)

/-- One symbol, if that satisfies the test, for what the test makes of it. -/
def next (test : σ → Option β) : Parser σ β where
  run
    | [] => none
    | x :: rest => (test x).map fun b => (b, rest)
  suffix {list b ys} h := by
    cases list with
    | nil => cases h
    | cons x rest =>
      obtain ⟨_, _, h⟩ := Option.map_eq_some_iff.mp h
      cases h
      exact List.suffix_cons x _

/-- That symbol. -/
def symbol [DecidableEq σ] (a : σ) : Parser σ Unit :=
  next fun x => if x = a then some () else none

/-- The symbols from here on that satisfy the test, and what is behind them. -/
def span (test : σ → Option β) : List σ → List β × List σ
  | [] => ([], [])
  | x :: rest =>
    match test x with
    | none => ([], x :: rest)
    | some b => (b :: (span test rest).1, (span test rest).2)

theorem span_eq (test : σ → Option β) (xs : List σ) :
    ∃ zs, xs = zs ++ (span test xs).2 ∧ zs.map test = (span test xs).1.map some := by
  induction xs with
  | nil => exact ⟨[], rfl, rfl⟩
  | cons x rest ih =>
    obtain ⟨zs, hrest, hzs⟩ := ih
    unfold span
    cases hx : test x with
    | none => exact ⟨[], rfl, rfl⟩
    | some b => exact ⟨x :: zs, congrArg (x :: ·) hrest, by simp [hx, hzs]⟩

/-- As many symbols as satisfy the test. -/
def many (test : σ → Option β) : Parser σ (List β) where
  run xs := some (span test xs)
  suffix {xs bs ys} h := by
    obtain ⟨zs, heq, _⟩ := span_eq test xs
    rw [Option.some.inj h] at heq
    exact ⟨zs, heq.symm⟩

/-- All of the input. -/
def parse (p : Parser σ β) (xs : List σ) : Option β :=
  match p.run xs with
  | some (b, []) => some b
  | _ => none

theorem bind_some {p : Parser σ β} {f : β → Parser σ γ} {xs zs : List σ} {c : γ}
    (h : (p >>= f).run xs = some (c, zs)) :
    ∃ b ys, p.run xs = some (b, ys) ∧ (f b).run ys = some (c, zs) := by
  obtain ⟨⟨b, ys⟩, hp, hf⟩ := Option.bind_eq_some_iff.mp h
  exact ⟨b, ys, hp, hf⟩

theorem run_bind {p : Parser σ β} {f : β → Parser σ γ} {xs ys : List σ} {b : β}
    (h : p.run xs = some (b, ys)) : (p >>= f).run xs = (f b).run ys := by
  show (p.run xs).bind _ = _
  rw [h]
  rfl

theorem run_bind_none {p : Parser σ β} {f : β → Parser σ γ} {xs : List σ}
    (h : p.run xs = none) : (p >>= f).run xs = none := by
  show (p.run xs).bind _ = _
  rw [h]
  rfl

theorem run_orElse_left {p q : Parser σ β} {xs : List σ} (h : q.run xs = none) :
    (orElse p q).run xs = p.run xs := by
  show (p.run xs).or (q.run xs) = _
  rw [h, Option.or_none]

theorem next_some {test : σ → Option β} {xs ys : List σ} {b : β}
    (h : (next test).run xs = some (b, ys)) : ∃ x, xs = x :: ys ∧ test x = some b := by
  cases xs with
  | nil => cases h
  | cons x rest =>
    obtain ⟨_, hx, h⟩ := Option.map_eq_some_iff.mp h
    cases h
    exact ⟨x, rfl, hx⟩

theorem many_some {test : σ → Option β} {xs ys : List σ} {bs : List β}
    (h : (many test).run xs = some (bs, ys)) :
    ∃ zs, xs = zs ++ ys ∧ zs.map test = bs.map some := by
  have heq := span_eq test xs
  rwa [Option.some.inj h] at heq

theorem parse_some {p : Parser σ β} {xs : List σ} {b : β} (h : p.parse xs = some b) :
    p.run xs = some (b, []) := by
  unfold parse at h
  split at h
  · rw [← Option.some.inj h]
    assumption
  · cases h

/-! ### What a parser takes -/

/-- Every symbol that the parser takes is one of these. -/
def Takes (P : σ → Prop) (p : Parser σ β) : Prop :=
  ∀ ⦃xs b ys⦄, p.run xs = some (b, ys) → ∃ zs, xs = zs ++ ys ∧ ∀ z ∈ zs, P z

/-- The parser takes something, and one of these last. -/
def Ends (P : σ → Prop) (p : Parser σ β) : Prop :=
  ∀ ⦃xs b ys⦄, p.run xs = some (b, ys) → ∃ zs z, xs = zs ++ z :: ys ∧ P z

variable {P : σ → Prop}

theorem takes_pure (b : β) : Takes P (pure b : Parser σ β) := by
  intro xs b ys h
  cases h
  exact ⟨[], rfl, nofun⟩

theorem takes_fail : Takes P (fail : Parser σ β) := nofun

theorem Takes.bind {p : Parser σ β} {f : β → Parser σ γ} (hp : Takes P p)
    (hf : ∀ b, Takes P (f b)) : Takes P (p >>= f) := by
  intro xs c zs h
  obtain ⟨b, ys, hrun, hnext⟩ := bind_some h
  obtain ⟨ts, rfl, hts⟩ := hp hrun
  obtain ⟨us, rfl, hus⟩ := hf b hnext
  refine ⟨ts ++ us, (List.append_assoc ..).symm, ?_⟩
  intro z hz
  exact (List.mem_append.mp hz).elim (hts z) (hus z)

theorem Takes.orElse {p q : Parser σ β} (hp : Takes P p) (hq : Takes P q) :
    Takes P (orElse p q) := by
  intro xs b ys h
  rcases Option.or_eq_some_iff.mp h with h | ⟨_, h⟩
  · exact hp h
  · exact hq h

theorem Takes.optional {p : Parser σ β} (hp : Takes P p) : Takes P (optional p) :=
  (hp.bind fun _ => takes_pure _).orElse (takes_pure none)

theorem takes_next {test : σ → Option β} (ht : ∀ x b, test x = some b → P x) :
    Takes P (next test) := by
  intro xs b ys h
  obtain ⟨x, rfl, hx⟩ := next_some h
  refine ⟨[x], rfl, fun z hz => ?_⟩
  rw [List.mem_singleton.mp hz]
  exact ht x b hx

theorem takes_symbol [DecidableEq σ] {a : σ} (ha : P a) : Takes P (symbol a) := by
  apply takes_next
  intro x u h
  rwa [(Option.ite_none_right_eq_some.mp h).1]

theorem tested {test : σ → Option β} (ht : ∀ x b, test x = some b → P x) {zs : List σ}
    {bs : List β} (h : zs.map test = bs.map some) : ∀ z ∈ zs, P z := by
  intro z hz
  have hmem : test z ∈ bs.map some := h ▸ List.mem_map_of_mem hz
  obtain ⟨b, _, hb⟩ := List.mem_map.mp hmem
  exact ht z b hb.symm

theorem takes_many {test : σ → Option β} (ht : ∀ x b, test x = some b → P x) :
    Takes P (many test) := by
  intro xs bs ys h
  obtain ⟨zs, hxs, hzs⟩ := many_some h
  exact ⟨zs, hxs, tested ht hzs⟩

/-- All of what is parsed is taken. -/
theorem Takes.parse {p : Parser σ β} (hp : Takes P p) {xs : List σ} {b : β}
    (h : p.parse xs = some b) : ∀ x ∈ xs, P x := by
  obtain ⟨zs, rfl, hzs⟩ := hp (parse_some h)
  rwa [List.append_nil]

theorem ends_bind {p : Parser σ β} {f : β → Parser σ γ} (hf : ∀ b, Ends P (f b)) :
    Ends P (p >>= f) := by
  intro xs c zs h
  obtain ⟨b, ys, hrun, hnext⟩ := bind_some h
  obtain ⟨us, u, rfl, hu⟩ := hf b hnext
  obtain ⟨ts, rfl⟩ := p.suffix hrun
  exact ⟨ts ++ us, u, (List.append_assoc ..).symm, hu⟩

/-- The value that is returned last takes nothing more. -/
theorem Ends.map {p : Parser σ β} (hp : Ends P p) (f : β → γ) :
    Ends P (p >>= fun b => pure (f b)) := by
  intro xs c zs h
  obtain ⟨b, ys, hrun, hnext⟩ := bind_some h
  cases hnext
  exact hp hrun

theorem Ends.orElse {p q : Parser σ β} (hp : Ends P p) (hq : Ends P q) :
    Ends P (orElse p q) := by
  intro xs b ys h
  rcases Option.or_eq_some_iff.mp h with h | ⟨_, h⟩
  · exact hp h
  · exact hq h

theorem Ends.parse {p : Parser σ β} (hp : Ends P p) {xs : List σ} {b : β}
    (h : p.parse xs = some b) : ∃ zs z, xs = zs ++ [z] ∧ P z :=
  hp (parse_some h)

/-! ### Where a parser stops -/

/-- The parser never takes that symbol: it stops in front of one as at the end. -/
def StopsAt (a : σ) (p : Parser σ β) : Prop :=
  ∀ xs ys, a ∉ xs → p.run (xs ++ a :: ys) = (p.run xs).map fun r => (r.1, r.2 ++ a :: ys)

section StopsAt

variable {a : σ}

theorem stopsAt_pure (b : β) : StopsAt a (pure b : Parser σ β) := fun _ _ _ => rfl

theorem stopsAt_fail : StopsAt a (fail : Parser σ β) := fun _ _ _ => rfl

theorem StopsAt.bind {p : Parser σ β} {f : β → Parser σ γ} (hp : StopsAt a p)
    (hf : ∀ b, StopsAt a (f b)) : StopsAt a (p >>= f) := by
  intro xs ys hxs
  show (p.run (xs ++ a :: ys)).bind _ = ((p.run xs).bind _).map _
  rw [hp xs ys hxs]
  cases hrun : p.run xs with
  | none => rfl
  | some r => exact hf r.1 r.2 ys fun hmem => hxs ((p.suffix hrun).subset hmem)

theorem stopsAt_next {test : σ → Option β} (ha : test a = none) : StopsAt a (next test) := by
  intro xs ys _
  cases xs with
  | nil => simp [next, ha]
  | cons x rest => cases hx : test x <;> simp [next, hx]

theorem stopsAt_symbol [DecidableEq σ] {b : σ} (hab : a ≠ b) : StopsAt a (symbol b) :=
  stopsAt_next (if_neg hab)

theorem span_append {test : σ → Option β} (ha : test a = none) (xs ys : List σ) :
    span test (xs ++ a :: ys) = ((span test xs).1, (span test xs).2 ++ a :: ys) := by
  induction xs with
  | nil => simp [span, ha]
  | cons x rest ih => cases hx : test x <;> simp [span, hx, ih]

theorem stopsAt_many {test : σ → Option β} (ha : test a = none) : StopsAt a (many test) := by
  intro xs ys _
  simp [many, span_append ha]

/-- All of an input that the test accepts. -/
theorem many_all {test : σ → Option β} {xs : List σ} {bs : List β}
    (h : xs.map test = bs.map some) : (many test).run xs = some (bs, []) := by
  suffices span test xs = (bs, []) by
    simp [many, this]
  induction xs generalizing bs with
  | nil =>
    rw [List.map_eq_nil_iff.mp h.symm]
    rfl
  | cons x rest ih =>
    cases bs with
    | nil => cases h
    | cons b bs =>
      rw [List.map_cons, List.map_cons, List.cons.injEq] at h
      simp [span, h.1, ih h.2]

end StopsAt

/-! ### How often a parser takes a symbol -/

theorem count_le [DecidableEq σ] (a : σ) {p : Parser σ β} {xs ys : List σ} {b : β}
    (h : p.run xs = some (b, ys)) : ys.count a ≤ xs.count a :=
  (p.suffix h).sublist.count_le a

theorem symbol_some [DecidableEq σ] {a : σ} {xs ys : List σ} {u : Unit}
    (h : (symbol a).run xs = some (u, ys)) : xs = a :: ys := by
  obtain ⟨x, rfl, hx⟩ := next_some h
  rw [(Option.ite_none_right_eq_some.mp hx).1]

end Parser

end Wae.Text
