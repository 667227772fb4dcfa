import DoWhile.Proofs.Parse.Derivation

/-!
# How a parse ends

A parse ends with a value or without one, at some feed, and with the diagnostics that it raised on
the way (`Parse.Ends`). What two parses in a row end with is put together from the two
(`Ends.bind`, `Ends.bind_none`).

An assignment fails only for want of an operand or behind one. It halts: its diagnostic
stands at the token where it stops, and complains of that token unless it is an operand itself
(`Parse.Halts`, `halts_assignment`).
-/

set_option autoImplicit false

namespace DoWhile

/-- The diagnostic that reading stopped at the token for want of something, where `found` stands. -/
def Token.wants (t : Token) (wanted : Expectation) (found : Lexeme) : Diagnostic :=
  ⟨.grammar, .expected wanted found, t.position⟩

namespace Parse

variable {α β : Type} {p : Parse α} {q : α → Parse β} {f g h : Feed}

/-- At the feed `f`, the parse ends with `v` at the feed `g` and raises the diagnostics `ds`. -/
structure Ends (p : Parse α) (f : Feed) (v : Option α) (ds : List Diagnostic) (g : Feed) :
    Prop where
  value : (p f).value = v
  feed : (p f).feed = g
  errors : (p f).notes.errors = ds

/-- A parse that yields ends with what it yields, without a diagnostic. -/
theorem Yields.ends {a : α} (hp : p.Yields f a g) : p.Ends f (some a) [] g :=
  ⟨hp.value, hp.feed, hp.quiet⟩

/-- A parse goes on where the one in front of it ended with a value. -/
theorem Ends.bind {a : α} {v : Option β} {ds es : List Diagnostic} (hp : p.Ends f (some a) ds g)
    (hq : (q a).Ends g v es h) : (p >>= q).Ends f v (ds ++ es) h := by
  obtain ⟨hvalue, rfl, rfl⟩ := hp
  obtain ⟨rfl, rfl, rfl⟩ := hq
  have hbind := bind_of_some (q := q) hvalue
  exact ⟨by rw [hbind], by rw [hbind], by rw [hbind, Notes.errors_append]⟩

/-- What yields behind a parse adds no diagnostic. -/
theorem Ends.bind_yields {a : α} {b : β} {ds : List Diagnostic} (hp : p.Ends f (some a) ds g)
    (hq : (q a).Yields g b h) : (p >>= q).Ends f (some b) ds h := by
  have hends := hp.bind hq.ends
  rwa [List.append_nil] at hends

/-- A parse behind one that fails is not entered. -/
theorem Ends.bind_none {ds : List Diagnostic} (hp : p.Ends f none ds g) :
    (p >>= q).Ends f none ds g := by
  obtain ⟨hvalue, rfl, rfl⟩ := hp
  have hbind := bind_of_none (q := q) hvalue
  exact ⟨by rw [hbind], by rw [hbind], by rw [hbind]⟩

/-- A parse goes on where the one in front of it yields. -/
theorem Yields.bind_ends {a : α} {v : Option β} {ds : List Diagnostic} (hp : p.Yields f a g)
    (hq : (q a).Ends g v ds h) : (p >>= q).Ends f v ds h := hp.ends.bind hq

/-- What a parse ends with at a feed depends on nothing but its outcome there. -/
theorem Ends.congr {p' : Parse α} {f' : Feed} {v : Option α} {ds : List Diagnostic}
    (hp : p'.Ends f' v ds g) (heq : p f = p' f') : p.Ends f v ds g :=
  ⟨by rw [heq, hp.value], by rw [heq, hp.feed], by rw [heq, hp.errors]⟩

/-- A parse that fails moves the feed before it is given up. -/
theorem Ends.orMove {m : Feed → Feed} {ds : List Diagnostic} (hp : p.Ends f none ds g) :
    (p.orMove m).Ends f none ds (m g) := by
  obtain ⟨hvalue, rfl, rfl⟩ := hp
  have heq : p.orMove m f = ⟨none, m (p f).feed, (p f).notes⟩ := by simp only [Parse.orMove, hvalue]
  exact ⟨by rw [heq], by rw [heq], by rw [heq]⟩

/-- The current token is handed on at the same feed. -/
theorem current_bind {r : Token → Parse β} : (current >>= r) f = r f.current f := rfl

/-- What comes behind a move is read one token further on. -/
theorem advance_bind {r : Unit → Parse β} : (advance >>= r) f = r () f.advance := rfl

/-- A parse that begins by looking at the current token ends as it does for that token. -/
theorem Ends.current_bind {r : Token → Parse β} {v : Option β} {ds : List Diagnostic}
    (h : (r f.current).Ends f v ds g) : (current >>= r).Ends f v ds g := h.congr rfl

/-- A parse that begins by looking at the next token ends as it does for that token. -/
theorem Ends.peek_bind {r : Token → Parse β} {v : Option β} {ds : List Diagnostic}
    (h : (r f.peek).Ends f v ds g) : (peek >>= r).Ends f v ds g := h.congr rfl

/-- A parse that begins by moving on ends as it does one token further on. -/
theorem Ends.advance_bind {r : Unit → Parse β} {v : Option β} {ds : List Diagnostic}
    (h : (r ()).Ends f.advance v ds g) : (advance >>= r).Ends f v ds g := h.congr rfl

/-- A parse that begins with an expected token ends as it does behind it. -/
theorem Ends.expect_bind {w : String} {wanted : Expectation} {r : Unit → Parse β} {v : Option β}
    {ds : List Diagnostic} (hmark : f.peek.isMark w = true) (h : (r ()).Ends f.advance v ds g) :
    (expect w wanted >>= r).Ends f v ds g := by
  have hexpect : (expect w wanted).Yields f () f.advance := yields_expect.mpr ⟨hmark, rfl⟩
  exact hexpect.bind_ends h

/-- A rejection fails without moving, with its one diagnostic at the current token. -/
theorem ends_reject (c : Complaint) (f : Feed) :
    (reject c : Parse α).Ends f none [⟨.grammar, c, f.current.position⟩] f := ⟨rfl, rfl, rfl⟩

/-- A symbol or reserved word that is not there is wanted behind the current token. -/
theorem ends_expect_of_not {w : String} {wanted : Expectation} (hmark : f.peek.isMark w = false) :
    (expect w wanted).Ends f none [f.current.wants wanted f.peek.toLexeme] f := by
  refine (ends_reject (.expected wanted f.peek.toLexeme) f).congr ?_
  rw [expect, expectThat, if_neg (by simp [hmark])]

/-- Where an operand is wanted, any other token is the one that is found. -/
theorem ends_operand_of_none (hnone : f.current.operand? = none) :
    operand.Ends f none [f.current.wants .operand f.current.toLexeme] f := by
  refine (ends_reject (.expected .operand f.current.toLexeme) f).congr ?_
  unfold operand
  unfold Token.operand? at hnone
  rw [current_bind]
  cases hkind : f.current.kind <;> simp [hkind] at hnone ⊢

/-! ## Halting -/

/-- The parse yields at the feed, or it fails with one diagnostic, at the token where it stops; the
diagnostic asks for an operand unless that token is one. -/
def Halts (p : Parse α) (f : Feed) : Prop :=
  (∃ a g, p.Yields f a g) ∨ ∃ c g, p.Ends f none [⟨.grammar, c, g.current.position⟩] g ∧
    (g.current.operand? = none → ∃ found, c = .expected .operand found)

/-- A parse that yields halts. -/
theorem halts_of_yields {a : α} (hp : p.Yields f a g) : p.Halts f := .inl ⟨a, g, hp⟩

/-- Parses that halt do so one behind the other. -/
theorem halts_bind (hp : p.Halts f) (hq : ∀ a g, p.Yields f a g → (q a).Halts g) :
    (p >>= q).Halts f := by
  obtain ⟨a, g, hyields⟩ | ⟨c, g, hends, hc⟩ := hp
  · obtain ⟨b, h, hb⟩ | ⟨c, h, hends, hc⟩ := hq a g hyields
    · exact .inl ⟨b, h, yields_bind.mpr ⟨a, g, hyields, hb⟩⟩
    · exact .inr ⟨c, h, hyields.bind_ends hends, hc⟩
  · exact .inr ⟨c, g, hends.bind_none, hc⟩

/-- Giving a value halts. -/
theorem halts_pure (a : α) (f : Feed) : (pure a : Parse α).Halts f :=
  halts_of_yields (yields_pure.mpr ⟨rfl, rfl⟩)

/-- Looking at the current token halts. -/
theorem halts_current (f : Feed) : current.Halts f :=
  halts_of_yields (yields_current.mpr ⟨rfl, rfl⟩)

/-- Moving on halts. -/
theorem halts_advance (f : Feed) : advance.Halts f :=
  halts_of_yields (a := ()) (yields_advance.mpr rfl)

/-- Reading an operand halts. -/
theorem halts_operand (f : Feed) : operand.Halts f := by
  unfold operand
  refine halts_bind (halts_current f) fun t g ht => ?_
  obtain ⟨rfl, rfl⟩ := yields_current.mp ht
  have hreject : ∀ found, (reject (.expected .operand found) : Parse Expr).Halts f := fun found =>
    .inr ⟨_, f, ⟨rfl, rfl, rfl⟩, fun _ => ⟨found, rfl⟩⟩
  cases hkind : f.current.kind with
  | identifier => exact halts_pure _ f
  | number => exact halts_pure _ f
  | reserved => exact hreject _
  | symbol => exact hreject _
  | endOfInput => exact hreject _
  | error => exact hreject _

/-- Reading an expression halts. -/
theorem halts_expression (f : Feed) : expression.Halts f := by
  unfold expression
  refine halts_bind (halts_operand f) fun left g _ => ?_
  refine halts_bind (halts_of_yields (yields_peek.mpr ⟨rfl, rfl⟩)) fun t g' _ => ?_
  by_cases hsign : isArithmetic t.toLexeme = true
  · rw [if_pos hsign]
    refine halts_bind (halts_advance g') fun _ g _ => ?_
    refine halts_bind (halts_current g) fun sign g _ => ?_
    refine halts_bind (halts_advance g) fun _ g _ => ?_
    exact halts_bind (halts_operand g) fun right g _ => halts_pure _ g
  · rw [if_neg hsign]
    exact halts_pure left g'

/-- On an operand, want of a symbol or reserved word behind it halts. -/
theorem halts_expect {w : String} {wanted : Expectation} {e : Expr}
    (hoperand : f.current.operand? = some e) : (expect w wanted).Halts f := by
  by_cases hmark : f.peek.isMark w = true
  · exact halts_of_yields (a := ()) (yields_expect.mpr ⟨hmark, rfl⟩)
  · refine .inr ⟨_, f, ends_expect_of_not (by simpa using hmark), ?_⟩
    intro hnone
    rw [hoperand] at hnone
    exact absurd hnone (by simp)

/-- What is read last of an expression is an operand. -/
theorem operand?_of_yields_expression {e : Expr} (hf : f.Live) (h : expression.Yields f e g) :
    ∃ last, g.current.operand? = some last := by
  obtain ⟨us, hmoves, hspells, -⟩ := (yields_expression_iff hf).mp h
  rw [hmoves.current, ← List.getLastD_cons]
  exact hspells.operand?_getLastD f.current

/-- Reading an assignment halts if the sign of assignment is there. -/
theorem halts_assignment (hf : f.Live) (hequals : f.peek.isMark "=" = true) :
    assignment.Halts f := by
  unfold assignment
  refine halts_bind (halts_current f) fun first g ht => ?_
  obtain ⟨-, rfl⟩ := yields_current.mp ht
  have hexpect : (expect "=" (.equalsAfterTarget first.literal)).Halts f :=
    halts_of_yields (a := ()) (yields_expect.mpr ⟨hequals, rfl⟩)
  refine halts_bind hexpect fun _ g hg => ?_
  obtain ⟨-, rfl⟩ := yields_expect.mp hg
  refine halts_bind (halts_advance _) fun _ g hg => ?_
  obtain rfl := yields_advance.mp hg
  refine halts_bind (halts_expression _) fun value g hvalue => ?_
  obtain ⟨last, hlast⟩ := operand?_of_yields_expression hf.advance.advance hvalue
  exact halts_bind (halts_expect hlast) fun _ g _ => halts_pure _ g

end Parse

end DoWhile
