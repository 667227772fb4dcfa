import DoWhile.Parse.Grammar

/-!
# What a parse yields

A parse yields a value if it gives it without raising a diagnostic (`Parse.Yields`). The theorems
below say, combinator by combinator, when a parse yields and what; a parse written with `do` is
then read off by rewriting with them.
-/

set_option autoImplicit false

namespace DoWhile.Parse

variable {α β : Type} {p : Parse α} {q : α → Parse β} {f g h : Feed}

/-- The parse gives `a` at the feed `f`, moves on to `g` and raises no diagnostic. -/
structure Yields (p : Parse α) (f : Feed) (a : α) (g : Feed) : Prop where
  value : (p f).value = some a
  feed : (p f).feed = g
  quiet : (p f).notes.errors = []

/-- What a parse yields at a feed depends on nothing but its outcome there. -/
theorem yields_congr {p' : Parse α} {a : α} (heq : p f = p' f) :
    p.Yields f a g ↔ p'.Yields f a g := by
  constructor
  · rintro ⟨hvalue, hfeed, hquiet⟩
    rw [heq] at hvalue hfeed hquiet
    exact ⟨hvalue, hfeed, hquiet⟩
  · rintro ⟨hvalue, hfeed, hquiet⟩
    rw [← heq] at hvalue hfeed hquiet
    exact ⟨hvalue, hfeed, hquiet⟩

/-- Sequencing is what the parser makes of it. -/
theorem bind_apply : (p >>= q) f = Parse.bind p q f := rfl

/-- Behind a parse that fails nothing is read. -/
theorem bind_of_none (hp : (p f).value = none) :
    (p >>= q) f = ⟨none, (p f).feed, (p f).notes⟩ := by
  rw [bind_apply, Parse.bind, hp]

/-- Behind a parse that gives a value, the rest is read with it, and the notes of both are put
together. -/
theorem bind_of_some {a : α} (hp : (p f).value = some a) :
    (p >>= q) f = ⟨(q a (p f).feed).value, (q a (p f).feed).feed,
      (p f).notes ++ (q a (p f).feed).notes⟩ := by
  rw [bind_apply, Parse.bind, hp]

/-! ## Yields of the combinators -/

/-- Giving a value yields it where it stands. -/
@[simp] theorem yields_pure {a b : α} : (pure a : Parse α).Yields f b g ↔ a = b ∧ f = g := by
  constructor
  · rintro ⟨hvalue, hfeed, -⟩
    exact ⟨Option.some.inj hvalue, hfeed⟩
  · rintro ⟨rfl, rfl⟩
    exact ⟨rfl, rfl, rfl⟩

/-- Two parses yield exactly if the first yields a value with which the second one does. -/
theorem yields_bind {b : β} :
    (p >>= q).Yields f b h ↔ ∃ a g, p.Yields f a g ∧ (q a).Yields g b h := by
  constructor
  · rintro ⟨hvalue, hfeed, hquiet⟩
    cases hp : (p f).value with
    | none => rw [bind_of_none hp] at hvalue; exact absurd hvalue (by simp)
    | some a =>
        rw [bind_of_some hp] at hvalue hfeed hquiet
        rw [Notes.errors_append, List.append_eq_nil_iff] at hquiet
        exact ⟨a, (p f).feed, ⟨hp, rfl, hquiet.1⟩, hvalue, hfeed, hquiet.2⟩
  · rintro ⟨a, g, ⟨hvalue, rfl, hquiet⟩, hvalue', hfeed', hquiet'⟩
    have hbind := bind_of_some (q := q) hvalue
    refine ⟨?_, ?_, ?_⟩
    · rw [hbind, hvalue']
    · rw [hbind, hfeed']
    · rw [hbind, Notes.errors_append, hquiet, hquiet', List.append_nil]

/-- Looking at the current token yields it. -/
@[simp] theorem yields_current {t : Token} : current.Yields f t g ↔ f.current = t ∧ f = g := by
  constructor
  · rintro ⟨hvalue, hfeed, -⟩
    exact ⟨Option.some.inj hvalue, hfeed⟩
  · rintro ⟨rfl, rfl⟩
    exact ⟨rfl, rfl, rfl⟩

/-- Looking at the next token yields it. -/
@[simp] theorem yields_peek {t : Token} : peek.Yields f t g ↔ f.peek = t ∧ f = g := by
  constructor
  · rintro ⟨hvalue, hfeed, -⟩
    exact ⟨Option.some.inj hvalue, hfeed⟩
  · rintro ⟨rfl, rfl⟩
    exact ⟨rfl, rfl, rfl⟩

/-- Moving on yields one token further on. -/
@[simp] theorem yields_advance {u : Unit} : advance.Yields f u g ↔ f.advance = g := by
  constructor
  · rintro ⟨-, hfeed, -⟩
    exact hfeed
  · rintro rfl
    exact ⟨rfl, rfl, rfl⟩

/-- A rejection yields nothing. -/
@[simp] theorem not_yields_reject {c : Complaint} {a : α} :
    ¬ (reject c : Parse α).Yields f a g := by
  rintro ⟨hvalue, -, -⟩
  exact absurd hvalue (by simp [reject])

/-- Expecting a token yields exactly if the next one passes the test. -/
@[simp] theorem yields_expectThat {test : Token → Bool} {wanted : Expectation} {u : Unit} :
    (expectThat test wanted).Yields f u g ↔ test f.peek = true ∧ f.advance = g := by
  by_cases htest : test f.peek = true
  · rw [yields_congr (show expectThat test wanted f = advance f by rw [expectThat, if_pos htest])]
    simp [htest]
  · rw [yields_congr (show expectThat test wanted f =
      (reject (.expected wanted f.peek.toLexeme) : Parse Unit) f by rw [expectThat, if_neg htest])]
    simp [htest]

/-- Expecting a text yields exactly if the next token is that mark. -/
@[simp] theorem yields_expect {literal : String} {wanted : Expectation} {u : Unit} :
    (expect literal wanted).Yields f u g ↔ f.peek.isMark literal = true ∧ f.advance = g :=
  yields_expectThat

/-- Expecting a kind yields exactly if the next token is of that kind. -/
@[simp] theorem yields_expectKind {kind : Token.Kind} {wanted : Expectation} {u : Unit} :
    (expectKind kind wanted).Yields f u g ↔ f.peek.kind = kind ∧ f.advance = g := by
  rw [expectKind, yields_expectThat, decide_eq_true_eq]

/-- A parse that looks at the current token yields what it does for that token. -/
theorem yields_current_bind {r : Token → Parse β} {b : β} :
    (current >>= r).Yields f b h ↔ (r f.current).Yields f b h := by
  simp [yields_bind, and_assoc]

/-- A parse that looks at the next token yields what it does for that token. -/
theorem yields_peek_bind {r : Token → Parse β} {b : β} :
    (peek >>= r).Yields f b h ↔ (r f.peek).Yields f b h := by
  simp [yields_bind, and_assoc]

/-- A parse without a value yields what comes behind it. -/
theorem yields_unit_bind {m : Parse Unit} {r : Unit → Parse β} {b : β} :
    (m >>= r).Yields f b h ↔ ∃ g, m.Yields f () g ∧ (r ()).Yields g b h := by
  rw [yields_bind]
  constructor
  · rintro ⟨⟨⟩, g, hm, hr⟩
    exact ⟨g, hm, hr⟩
  · rintro ⟨g, hm, hr⟩
    exact ⟨(), g, hm, hr⟩

/-- A parse that moves on yields what it does one token further on. -/
theorem yields_advance_bind {r : Unit → Parse β} {b : β} :
    (advance >>= r).Yields f b h ↔ (r ()).Yields f.advance b h := by
  simp [yields_unit_bind]

/-- A parse that expects a text yields exactly if the text is there and the rest yields. -/
theorem yields_expect_bind {literal : String} {wanted : Expectation} {r : Unit → Parse β}
    {b : β} :
    (expect literal wanted >>= r).Yields f b h ↔
      f.peek.isMark literal = true ∧ (r ()).Yields f.advance b h := by
  simp [yields_unit_bind, and_assoc]

/-- A parse that expects a kind yields exactly if the kind is there and the rest yields. -/
theorem yields_expectKind_bind {kind : Token.Kind} {wanted : Expectation} {r : Unit → Parse β}
    {b : β} :
    (expectKind kind wanted >>= r).Yields f b h ↔
      f.peek.kind = kind ∧ (r ()).Yields f.advance b h := by
  simp [yields_unit_bind, and_assoc]

/-- Moving the feed after a failure does not change what a parse yields. -/
@[simp] theorem yields_orMove {m : Feed → Feed} {a : α} :
    (p.orMove m).Yields f a g ↔ p.Yields f a g := by
  cases hp : (p f).value with
  | none =>
      constructor
      · rintro ⟨hvalue, -, -⟩
        simp [orMove, hp] at hvalue
      · rintro ⟨hvalue, -, -⟩
        rw [hp] at hvalue
        exact absurd hvalue (by simp)
  | some b =>
      apply yields_congr
      simp only [orMove, hp]
      rw [← hp]

end DoWhile.Parse
