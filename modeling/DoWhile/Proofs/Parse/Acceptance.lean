import DoWhile.Proofs.Parse.Statements
import DoWhile.Proofs.Program.Lexemes

/-!
# What the parser accepts

On tokens as a scan makes them, derivations are the same as written programs: the tokens of a
derivation are the lexemes of what it builds, and every well-formed program is built from any
tokens with its lexemes, up to positions. So the parser accepts exactly the well-formed programs,
and it gives back the one that was written (`parse_accepts_iff`).
-/

set_option autoImplicit false

namespace DoWhile

/-! ## Proper tokens are determined by their texts -/

/-- Two proper lexemes with one text are the same. -/
theorem Lexeme.eq_of_literal {x y : Lexeme} (hx : x.isProper = true) (hy : y.isProper = true)
    (h : x.literal = y.literal) : x = y := by
  obtain ⟨kind, literal⟩ := x
  obtain ⟨kind', literal'⟩ := y
  obtain rfl : literal = literal' := h
  have hkind : kind = kind' :=
    Token.Kind.eq_of_admits (admits_of_isProper hx) (admits_of_isProper hy)
  rw [hkind]

/-- A proper token that stands for a symbol or a reserved word is that lexeme. -/
theorem Lexeme.eq_of_isMark {x y : Lexeme} (hx : x.isProper = true) (h : x.isMark y.literal = true)
    (hy : y.isProper = true) : x = y := by
  simp only [isMark, Bool.and_eq_true, beq_iff_eq] at h
  exact eq_of_literal hx hy h.2

/-- A proper token with the text of a symbol is no operand. -/
theorem Token.operand?_of_literal {t : Token} {w : String} (ht : t.isProper = true)
    (hw : Lexeme.isProper ⟨.symbol, w⟩ = true) (hliteral : t.literal = w) : t.operand? = none := by
  have heq : t.toLexeme = ⟨.symbol, w⟩ := Lexeme.eq_of_literal ht hw hliteral
  simp [Token.operand?, heq]

namespace Grammar

/-! ## From derivations to lexemes -/

/-- The operand that a token is has the lexeme of the token. -/
theorem isOperand_of_operand? {t : Token} {e : Expr} (h : t.operand? = some e) :
    e.isOperand = true ∧ e.lexemes = [t.toLexeme] := by
  obtain ⟨⟨kind, literal⟩, position⟩ := t
  cases kind <;> simp only [Token.operand?, Option.some.injEq, reduceCtorEq] at h
  · subst h
    exact ⟨rfl, rfl⟩
  · subst h
    exact ⟨rfl, rfl⟩

/-- An operand by itself is a value. -/
theorem isValue_of_isOperand {e : Expr} (h : e.isOperand = true) : e.isValue = true := by
  cases e with
  | identifier name p => rfl
  | number text p => rfl
  | binary left operator right p => exact absurd h (by simp [Expr.isOperand])

/-- What an expression is derived from are its lexemes. -/
theorem Expression.lexemes {ts : List Token} {e : Expr} (h : Expression ts e) :
    e.isValue = true ∧ e.lexemes = ts.map (·.toLexeme) := by
  cases h with
  | operand he =>
      obtain ⟨hoperand, hlexemes⟩ := isOperand_of_operand? he
      exact ⟨isValue_of_isOperand hoperand, hlexemes⟩
  | @binary a o b left right ha ho hb =>
      obtain ⟨hleft, hlexemes⟩ := isOperand_of_operand? ha
      obtain ⟨hright, hlexemes'⟩ := isOperand_of_operand? hb
      simp only [Parse.isArithmetic, Bool.and_eq_true, decide_eq_true_eq] at ho
      have ho' : (⟨.symbol, o.literal⟩ : Lexeme) = o.toLexeme := by rw [← ho.1]
      refine ⟨by simp [Expr.isValue, hleft, hright, ho.2], ?_⟩
      simp [Expr.lexemes, hlexemes, hlexemes', ho']

/-- What a comparison is derived from are its lexemes. -/
theorem Comparison.lexemes {ts : List Token} {e : Expr} (h : Comparison ts e)
    (hproper : ∀ t ∈ ts, t.isProper = true) :
    e.isComparison = true ∧ e.lexemes = ts.map (·.toLexeme) := by
  cases h with
  | @mk a o b left right ha ho hb =>
      obtain ⟨hleft, hlexemes⟩ := isOperand_of_operand? ha
      obtain ⟨hright, hlexemes'⟩ := isOperand_of_operand? hb
      have ho' : o.toLexeme = ⟨.symbol, "=="⟩ := Lexeme.eq_of_isMark (hproper o (by simp)) ho rfl
      refine ⟨by simp [Expr.isComparison, hleft, hright], ?_⟩
      simp [Expr.lexemes, hlexemes, hlexemes', ho']

/-- What an assignment is derived from are its lexemes. -/
theorem Assignment.lexemes {ts : List Token} {s : Stmt} (h : Assignment ts s)
    (hfirst : ∀ t ∈ ts.head?, t.kind = .identifier) (hproper : ∀ t ∈ ts, t.isProper = true) :
    s.isAssignment = true ∧ s.lexemes = ts.map (·.toLexeme) := by
  cases h with
  | @mk first equals semicolon ts value hequals hvalue hsemicolon =>
      have hfirst' : (⟨.identifier, first.literal⟩ : Lexeme) = first.toLexeme := by
        rw [← hfirst first rfl]
      have hequals' : equals.toLexeme = ⟨.symbol, "="⟩ :=
        Lexeme.eq_of_isMark (hproper equals (by simp)) hequals rfl
      have hsemicolon' : semicolon.toLexeme = ⟨.symbol, ";"⟩ :=
        Lexeme.eq_of_isMark (hproper semicolon (by simp)) hsemicolon rfl
      obtain ⟨hvalue, hlexemes⟩ := hvalue.lexemes
      refine ⟨hvalue, ?_⟩
      simp [Stmt.lexemes, hlexemes, hfirst', hequals', hsemicolon']

/-- What a declaration is derived from are its lexemes. -/
theorem Declaration.lexemes {ts : List Token} {s : Stmt} (h : Declaration ts s)
    (hfirst : ∀ t ∈ ts.head?, t.literal = "int") (hproper : ∀ t ∈ ts, t.isProper = true) :
    s.isGrammatical = true ∧ s.lexemes = ts.map (·.toLexeme) := by
  cases h with
  | @mk first name equals semicolon ts value hname hequals hvalue hsemicolon =>
      have hliteral : first.literal = "int" := hfirst first rfl
      have hfirst' : first.toLexeme = ⟨.reserved, "int"⟩ :=
        Lexeme.eq_of_literal (hproper first (by simp)) rfl hliteral
      have hname' : (⟨.identifier, name.literal⟩ : Lexeme) = name.toLexeme := by rw [← hname]
      have hequals' : equals.toLexeme = ⟨.symbol, "="⟩ :=
        Lexeme.eq_of_isMark (hproper equals (by simp)) hequals rfl
      have hsemicolon' : semicolon.toLexeme = ⟨.symbol, ";"⟩ :=
        Lexeme.eq_of_isMark (hproper semicolon (by simp)) hsemicolon rfl
      obtain ⟨hvalue, hlexemes⟩ := hvalue.lexemes
      refine ⟨by simp [Stmt.isGrammatical, hliteral, hvalue], ?_⟩
      simp [Stmt.lexemes, hlexemes, hfirst', hname', hequals', hsemicolon']

/-- What a condition is derived from are the lexemes of its comparison, in parentheses and with a
semicolon behind. -/
theorem Condition.lexemes {word : Token} {us : List Token} {e : Expr}
    (h : Condition (word :: us) e) (hproper : ∀ t ∈ us, t.isProper = true) :
    e.isComparison = true ∧
      ⟨.symbol, "("⟩ :: (e.lexemes ++ [⟨.symbol, ")"⟩, ⟨.symbol, ";"⟩]) =
        us.map (·.toLexeme) := by
  cases h with
  | @mk _ opening closing semicolon ts _ hopening htest hclosing hsemicolon =>
      have hopening' : opening.toLexeme = ⟨.symbol, "("⟩ :=
        Lexeme.eq_of_isMark (hproper opening (by simp)) hopening rfl
      have hclosing' : closing.toLexeme = ⟨.symbol, ")"⟩ :=
        Lexeme.eq_of_isMark (hproper closing (by simp)) hclosing rfl
      have hsemicolon' : semicolon.toLexeme = ⟨.symbol, ";"⟩ :=
        Lexeme.eq_of_isMark (hproper semicolon (by simp)) hsemicolon rfl
      obtain ⟨htest, hlexemes⟩ := htest.lexemes fun t ht => hproper t (by simp [ht])
      exact ⟨htest, by simp [hlexemes, hopening', hclosing', hsemicolon']⟩

/-- What a loop body is derived from are the lexemes of its assignments. -/
theorem Body.lexemes {ts : List Token} {ss : List Stmt} (h : Body ts ss)
    (hproper : ∀ t ∈ ts, t.isProper = true) :
    ss.all Stmt.isAssignment = true ∧ Stmt.lexemesAll ss = ts.map (·.toLexeme) := by
  induction h with
  | nil => exact ⟨rfl, rfl⟩
  | @cons first us ts s ss hkind hopen hs hss ih =>
      obtain ⟨hassignment, hlexemes⟩ := hs.lexemes (by simpa using hkind) fun t ht =>
        hproper t (by rw [← List.cons_append]; exact List.mem_append_left ts ht)
      obtain ⟨hall, hlexemes'⟩ := ih fun t ht => hproper t (by simp [ht])
      refine ⟨by simp [hassignment, hall], ?_⟩
      rw [Stmt.lexemesAll, hlexemes, hlexemes', ← List.map_append, List.cons_append]

/-- What a loop is derived from are its lexemes. -/
theorem Loop.lexemes {ts : List Token} {s : Stmt} (h : Loop ts s)
    (hfirst : ∀ t ∈ ts.head?, t.literal = "do") (hproper : ∀ t ∈ ts, t.isProper = true) :
    s.isGrammatical = true ∧ s.lexemes = ts.map (·.toLexeme) := by
  cases h with
  | @mk first opening closing word ts us body test hopening hbody hclosing hword htest =>
      have hfirst' : first.toLexeme = ⟨.reserved, "do"⟩ :=
        Lexeme.eq_of_literal (hproper first (by simp)) rfl (hfirst first rfl)
      have hopening' : opening.toLexeme = ⟨.symbol, "\x7b"⟩ :=
        Lexeme.eq_of_isMark (hproper opening (by simp)) hopening rfl
      have hclosing' : closing.toLexeme = ⟨.symbol, "\x7d"⟩ :=
        Lexeme.eq_of_literal (hproper closing (by simp)) rfl hclosing
      have hword' : word.toLexeme = ⟨.reserved, "while"⟩ :=
        Lexeme.eq_of_isMark (hproper word (by simp)) hword rfl
      obtain ⟨hall, hlexemes⟩ := hbody.lexemes fun t ht => hproper t (by simp [ht])
      obtain ⟨hcomparison, hlexemes'⟩ := htest.lexemes fun t ht => hproper t (by simp [ht])
      refine ⟨by rw [Stmt.isGrammatical, hall, hcomparison, Bool.and_self], ?_⟩
      simp [Stmt.lexemes, hlexemes, hlexemes', hfirst', hopening', hclosing', hword']

/-- What a statement is derived from are its lexemes. -/
theorem Statement.lexemes {ts : List Token} {s : Stmt} (h : Statement ts s)
    (hproper : ∀ t ∈ ts, t.isProper = true) :
    s.isGrammatical = true ∧ s.lexemes = ts.map (·.toLexeme) := by
  cases h with
  | declaration hfirst hs => exact hs.lexemes (by simpa using hfirst) hproper
  | loop hfirst hs => exact hs.lexemes (by simpa using hfirst) hproper
  | assignment hkind _ _ hs =>
      obtain ⟨hassignment, hlexemes⟩ := hs.lexemes (by simpa using hkind) hproper
      refine ⟨?_, hlexemes⟩
      cases hs
      exact hassignment

/-- The tokens of a row of statements are the lexemes of statements that the grammar builds. -/
theorem Statements.lexemes {ts : List Token} {ss : List Stmt} (h : Statements ts ss)
    (hproper : ∀ t ∈ ts, t.isProper = true) :
    ss.all Stmt.isGrammatical = true ∧ Stmt.lexemesAll ss = ts.map (·.toLexeme) := by
  induction h with
  | nil => exact ⟨rfl, rfl⟩
  | @cons first us ts s ss hfirst hs hss ih =>
      obtain ⟨hgrammatical, hlexemes⟩ := hs.lexemes fun t ht =>
        hproper t (by rw [← List.cons_append]; exact List.mem_append_left ts ht)
      obtain ⟨hall, hlexemes'⟩ := ih fun t ht => hproper t (by simp [ht])
      refine ⟨by simp [hgrammatical, hall], ?_⟩
      rw [Stmt.lexemesAll, hlexemes, hlexemes', ← List.map_append, List.cons_append]

/-! ## From lexemes to derivations -/

/-- A token with the lexeme of an operand is that operand, up to its place. -/
theorem operand?_of_isOperand {e : Expr} {ts : List Token} (he : e.isOperand = true)
    (hts : ts.map (·.toLexeme) = e.lexemes) :
    ∃ t e', ts = [t] ∧ t.operand? = some e' ∧ e'.unplaced = e.unplaced := by
  cases e with
  | identifier name p =>
      obtain ⟨t, rfl, ht⟩ := List.map_eq_singleton_iff.mp hts
      exact ⟨t, .identifier name t.position, rfl, by simp [Token.operand?, ht], rfl⟩
  | number text p =>
      obtain ⟨t, rfl, ht⟩ := List.map_eq_singleton_iff.mp hts
      exact ⟨t, .number text t.position, rfl, by simp [Token.operand?, ht], rfl⟩
  | binary left operator right p => exact absurd he (by simp [Expr.isOperand])

/-- The tokens of two operands and the operator between them. -/
theorem operands_of_lexemes {left right : Expr} {operator : String} {p : Position}
    {ts : List Token} (hleft : left.isOperand = true) (hright : right.isOperand = true)
    (hts : ts.map (·.toLexeme) = (Expr.binary left operator right p).lexemes) :
    ∃ a o b left' right', ts = [a, o, b] ∧ a.operand? = some left' ∧ b.operand? = some right' ∧
      o.toLexeme = ⟨.symbol, operator⟩ ∧ left'.unplaced = left.unplaced ∧
      right'.unplaced = right.unplaced := by
  rw [Expr.lexemes] at hts
  obtain ⟨as, os, rfl, has, hos⟩ := List.map_eq_append_iff.mp hts
  obtain ⟨o, bs, rfl, ho, hbs⟩ := List.map_eq_cons_iff.mp hos
  obtain ⟨a, left', rfl, ha, hleft'⟩ := operand?_of_isOperand hleft has
  obtain ⟨b, right', rfl, hb, hright'⟩ := operand?_of_isOperand hright hbs
  exact ⟨a, o, b, left', right', rfl, ha, hb, ho, hleft', hright'⟩

/-- Tokens with the lexemes of a value derive that value, up to places. -/
theorem expression_of_lexemes {e : Expr} {ts : List Token} (he : e.isValue = true)
    (hts : ts.map (·.toLexeme) = e.lexemes) :
    ∃ e', Expression ts e' ∧ e'.unplaced = e.unplaced := by
  cases e with
  | identifier name p =>
      obtain ⟨t, e', rfl, ht, hsame⟩ := operand?_of_isOperand rfl hts
      exact ⟨e', .operand ht, hsame⟩
  | number text p =>
      obtain ⟨t, e', rfl, ht, hsame⟩ := operand?_of_isOperand rfl hts
      exact ⟨e', .operand ht, hsame⟩
  | binary left operator right p =>
      simp only [Expr.isValue, Bool.and_eq_true] at he
      obtain ⟨⟨hleft, hsign⟩, hright⟩ := he
      obtain ⟨a, o, b, left', right', rfl, ha, hb, ho, hleft', hright'⟩ :=
        operands_of_lexemes hleft hright hts
      refine ⟨_, .binary ha ?_ hb, ?_⟩
      · rw [ho]
        simpa [Parse.isArithmetic] using hsign
      · rw [Expr.unplaced, Expr.unplaced, hleft', hright', ho]

/-- Tokens with the lexemes of a comparison derive that comparison, up to places. -/
theorem comparison_of_lexemes {e : Expr} {ts : List Token} (he : e.isComparison = true)
    (hts : ts.map (·.toLexeme) = e.lexemes) :
    ∃ e', Comparison ts e' ∧ e'.unplaced = e.unplaced := by
  cases e with
  | identifier name p => exact absurd he (by simp [Expr.isComparison])
  | number text p => exact absurd he (by simp [Expr.isComparison])
  | binary left operator right p =>
      simp only [Expr.isComparison, Bool.and_eq_true, beq_iff_eq] at he
      obtain ⟨⟨hleft, rfl⟩, hright⟩ := he
      obtain ⟨a, o, b, left', right', rfl, ha, hb, ho, hleft', hright'⟩ :=
        operands_of_lexemes hleft hright hts
      refine ⟨_, .mk ha ?_ hb, ?_⟩
      · rw [ho]
        rfl
      · rw [Expr.unplaced, Expr.unplaced, hleft', hright']

/-- Tokens with the lexemes of an assignment derive that assignment, up to places. -/
theorem assignment_of_lexemes {target : String} {value : Expr} {p : Position} {ts : List Token}
    (hvalue : value.isValue = true)
    (hts : ts.map (·.toLexeme) = (Stmt.assignment target value p).lexemes) :
    ∃ first us s, ts = first :: us ∧ first.toLexeme = ⟨.identifier, target⟩ ∧
      Assignment (first :: us) s ∧ s.unplaced = (Stmt.assignment target value p).unplaced := by
  rw [Stmt.lexemes] at hts
  obtain ⟨first, us, rfl, hfirst, hus⟩ := List.map_eq_cons_iff.mp hts
  obtain ⟨equals, vs, rfl, hequals, hvs⟩ := List.map_eq_cons_iff.mp hus
  obtain ⟨ts, ws, rfl, hvalue', hws⟩ := List.map_eq_append_iff.mp hvs
  obtain ⟨semicolon, rfl, hsemicolon⟩ := List.map_eq_singleton_iff.mp hws
  obtain ⟨value', hspells, hsame⟩ := expression_of_lexemes hvalue hvalue'
  refine ⟨first, _, _, rfl, hfirst, .mk ?_ hspells ?_, ?_⟩
  · rw [hequals]
    rfl
  · rw [hsemicolon]
    rfl
  · rw [Stmt.unplaced, Stmt.unplaced, hsame, hfirst]

/-- Tokens with the lexemes of a loop body derive that body, up to places. -/
theorem body_of_lexemes {ss : List Stmt} {ts : List Token}
    (hss : ss.all Stmt.isAssignment = true) (hproper : ∀ x ∈ Stmt.lexemesAll ss, x.isProper = true)
    (hts : ts.map (·.toLexeme) = Stmt.lexemesAll ss) :
    ∃ ss', Body ts ss' ∧ Stmt.unplacedAll ss' = Stmt.unplacedAll ss := by
  induction ss generalizing ts with
  | nil =>
      obtain rfl : ts = [] := List.map_eq_nil_iff.mp hts
      exact ⟨[], .nil, rfl⟩
  | cons s ss ih =>
      rw [List.all_cons, Bool.and_eq_true] at hss
      rw [Stmt.lexemesAll] at hts hproper
      obtain ⟨us, vs, rfl, hus, hvs⟩ := List.map_eq_append_iff.mp hts
      obtain ⟨ss', hbody, hsame⟩ :=
        ih hss.2 (fun x hx => hproper x (List.mem_append_right _ hx)) hvs
      cases s with
      | assignment target value p =>
          obtain ⟨first, us, s', rfl, hfirst, hs', hsame'⟩ := assignment_of_lexemes hss.1 hus
          refine ⟨s' :: ss', .cons (by rw [hfirst]) ?_ hs' hbody, ?_⟩
          · -- a closing brace is the spelling of no identifier
            rw [hfirst]
            rintro rfl
            exact absurd (hproper ⟨.identifier, "\x7d"⟩ (by simp [Stmt.lexemes])) (by decide)
          · rw [Stmt.unplacedAll, Stmt.unplacedAll, hsame, hsame']
      | declaration typeName name value p => exact absurd hss.1 (by simp [Stmt.isAssignment])
      | loop body condition p => exact absurd hss.1 (by simp [Stmt.isAssignment])

/-- Tokens with the lexemes of a condition derive its comparison, up to places. -/
theorem condition_of_lexemes {e : Expr} (word : Token) {us : List Token}
    (he : e.isComparison = true)
    (hus : us.map (·.toLexeme) =
      ⟨.symbol, "("⟩ :: (e.lexemes ++ [⟨.symbol, ")"⟩, ⟨.symbol, ";"⟩])) :
    ∃ e', Condition (word :: us) e' ∧ e'.unplaced = e.unplaced := by
  obtain ⟨opening, vs, rfl, hopening, hvs⟩ := List.map_eq_cons_iff.mp hus
  obtain ⟨ts, ws, rfl, hts, hws⟩ := List.map_eq_append_iff.mp hvs
  obtain ⟨closing, xs, rfl, hclosing, hxs⟩ := List.map_eq_cons_iff.mp hws
  obtain ⟨semicolon, rfl, hsemicolon⟩ := List.map_eq_singleton_iff.mp hxs
  obtain ⟨e', hspells, hsame⟩ := comparison_of_lexemes he hts
  refine ⟨e', .mk ?_ hspells ?_ ?_, hsame⟩
  · rw [hopening]
    rfl
  · rw [hclosing]
    rfl
  · rw [hsemicolon]
    rfl

/-- Tokens with the lexemes of a declaration derive that declaration, up to places. -/
theorem declaration_of_lexemes {name : String} {value : Expr} {p : Position} {ts : List Token}
    (hvalue : value.isValue = true)
    (hts : ts.map (·.toLexeme) = (Stmt.declaration "int" name value p).lexemes) :
    ∃ first us s, ts = first :: us ∧ first.toLexeme = ⟨.reserved, "int"⟩ ∧
      Declaration (first :: us) s ∧
      s.unplaced = (Stmt.declaration "int" name value p).unplaced := by
  rw [Stmt.lexemes] at hts
  obtain ⟨first, us, rfl, hfirst, hus⟩ := List.map_eq_cons_iff.mp hts
  obtain ⟨name', vs, rfl, hname, hvs⟩ := List.map_eq_cons_iff.mp hus
  obtain ⟨equals, ws, rfl, hequals, hws⟩ := List.map_eq_cons_iff.mp hvs
  obtain ⟨ts, xs, rfl, hvalue', hxs⟩ := List.map_eq_append_iff.mp hws
  obtain ⟨semicolon, rfl, hsemicolon⟩ := List.map_eq_singleton_iff.mp hxs
  obtain ⟨value', hspells, hsame⟩ := expression_of_lexemes hvalue hvalue'
  refine ⟨first, _, _, rfl, hfirst, .mk ?_ ?_ hspells ?_, ?_⟩
  · rw [hname]
  · rw [hequals]
    rfl
  · rw [hsemicolon]
    rfl
  · rw [Stmt.unplaced, Stmt.unplaced, hsame, hfirst, hname]

/-- Tokens with the lexemes of a loop derive that loop, up to places. -/
theorem loop_of_lexemes {body : List Stmt} {test : Expr} {p : Position} {ts : List Token}
    (hbody : body.all Stmt.isAssignment = true) (htest : test.isComparison = true)
    (hproper : ∀ x ∈ (Stmt.loop body test p).lexemes, x.isProper = true)
    (hts : ts.map (·.toLexeme) = (Stmt.loop body test p).lexemes) :
    ∃ first us s, ts = first :: us ∧ first.toLexeme = ⟨.reserved, "do"⟩ ∧
      Loop (first :: us) s ∧ s.unplaced = (Stmt.loop body test p).unplaced := by
  rw [Stmt.lexemes] at hts hproper
  obtain ⟨first, us, rfl, hfirst, hus⟩ := List.map_eq_cons_iff.mp hts
  obtain ⟨opening, vs, rfl, hopening, hvs⟩ := List.map_eq_cons_iff.mp hus
  obtain ⟨ts, ws, rfl, hts', hws⟩ := List.map_eq_append_iff.mp hvs
  obtain ⟨closing, xs, rfl, hclosing, hxs⟩ := List.map_eq_cons_iff.mp hws
  obtain ⟨word, ys, rfl, hword, hys⟩ := List.map_eq_cons_iff.mp hxs
  obtain ⟨ss, hspells, hsame⟩ := body_of_lexemes hbody (fun x hx => hproper x (by simp [hx])) hts'
  obtain ⟨test', hspells', hsame'⟩ := condition_of_lexemes word htest hys
  refine ⟨first, _, _, rfl, hfirst, .mk ?_ hspells ?_ ?_ hspells', ?_⟩
  · rw [hopening]
    rfl
  · rw [hclosing]
  · rw [hword]
    rfl
  · rw [Stmt.unplaced, Stmt.unplaced, hsame, hsame']

/-- Tokens with the lexemes of a statement derive that statement, up to places, and do not begin
with an end token. -/
theorem statement_of_lexemes {s : Stmt} {ts : List Token} (hs : s.isGrammatical = true)
    (hproper : ∀ x ∈ s.lexemes, x.isProper = true)
    (hts : ts.map (·.toLexeme) = s.lexemes) :
    ∃ first us s', ts = first :: us ∧ first.isEnd = false ∧ Statement (first :: us) s' ∧
      s'.unplaced = s.unplaced := by
  cases s with
  | declaration typeName name value p =>
      simp only [Stmt.isGrammatical, Bool.and_eq_true, beq_iff_eq] at hs
      obtain ⟨rfl, hvalue⟩ := hs
      obtain ⟨first, us, s', rfl, hfirst, hs', hsame⟩ := declaration_of_lexemes hvalue hts
      exact ⟨first, us, s', rfl, by simp [Token.isEnd, hfirst],
        .declaration (by rw [hfirst]) hs', hsame⟩
  | assignment target value p =>
      obtain ⟨first, us, s', rfl, hfirst, hs', hsame⟩ := assignment_of_lexemes hs hts
      have htarget := hproper ⟨.identifier, target⟩ (by simp [Stmt.lexemes])
      refine ⟨first, us, s', rfl, by simp [Token.isEnd, hfirst],
        .assignment (by rw [hfirst]) ?_ ?_ hs', hsame⟩
      -- no reserved word is the spelling of an identifier
      · rw [hfirst]
        rintro rfl
        exact absurd htarget (by decide)
      · rw [hfirst]
        rintro rfl
        exact absurd htarget (by decide)
  | loop body test p =>
      simp only [Stmt.isGrammatical, Bool.and_eq_true] at hs
      obtain ⟨first, us, s', rfl, hfirst, hs', hsame⟩ := loop_of_lexemes hs.1 hs.2 hproper hts
      exact ⟨first, us, s', rfl, by simp [Token.isEnd, hfirst], .loop (by rw [hfirst]) hs', hsame⟩

/-- Any tokens with the lexemes of statements that the grammar builds spell those statements, up to
positions. -/
theorem statements_of_lexemes {ss : List Stmt} {ts : List Token}
    (hss : ss.all Stmt.isGrammatical = true)
    (hproper : ∀ x ∈ Stmt.lexemesAll ss, x.isProper = true)
    (hts : ts.map (·.toLexeme) = Stmt.lexemesAll ss) :
    ∃ ss', Statements ts ss' ∧ Stmt.unplacedAll ss' = Stmt.unplacedAll ss := by
  induction ss generalizing ts with
  | nil =>
      obtain rfl : ts = [] := List.map_eq_nil_iff.mp hts
      exact ⟨[], .nil, rfl⟩
  | cons s ss ih =>
      rw [List.all_cons, Bool.and_eq_true] at hss
      rw [Stmt.lexemesAll] at hts hproper
      obtain ⟨us, vs, rfl, hus, hvs⟩ := List.map_eq_append_iff.mp hts
      obtain ⟨ss', hstatements, hsame⟩ :=
        ih hss.2 (fun x hx => hproper x (List.mem_append_right _ hx)) hvs
      obtain ⟨first, us, s', rfl, hfirst, hs', hsame'⟩ :=
        statement_of_lexemes hss.1 (fun x hx => hproper x (List.mem_append_left _ hx)) hus
      refine ⟨s' :: ss', .cons hfirst hs' hstatements, ?_⟩
      rw [Stmt.unplacedAll, Stmt.unplacedAll, hsame, hsame']

end Grammar

/-! ## Token lists as a scan makes them -/

/-- A token list in which every token has the kind that admits its text and only the last one may
be the end of the input. -/
structure Regular (ts : List Token) : Prop where
  admitted : ∀ t ∈ ts, t.kind.admits t.literal = true
  endLast : ∀ t ∈ ts.dropLast, t.isEnd = false

/-- The tokens of a list without the end of the input. -/
def inner (ts : List Token) : List Token := ts.filter fun t => !t.isEnd

/-- Inside a regular list all tokens are proper. -/
theorem Regular.isProper_of_mem_inner {ts : List Token} (h : Regular ts) :
    ∀ t ∈ inner ts, t.isProper = true := by
  intro t ht
  rw [inner, List.mem_filter, Bool.not_eq_true'] at ht
  have hkind : t.kind ≠ .endOfInput := by simpa [Token.isEnd] using ht.2
  simp [Lexeme.isProper, hkind, h.admitted t ht.1]

/-- Proper tokens, with an end of the input behind them or without one, are regular. -/
theorem regular_of_isProper {ts : List Token} (hts : ∀ t ∈ ts, t.isProper = true)
    (ending : Option Position) :
    Regular (ts ++ (ending.map Token.endAt).toList) ∧
      inner (ts ++ (ending.map Token.endAt).toList) = ts := by
  have hends : ∀ t ∈ ts, t.isEnd = false := fun t ht => Token.isEnd_of_isProper (hts t ht)
  have hinner : ts.filter (fun t => !t.isEnd) = ts := by
    rw [List.filter_eq_self]
    intro t ht
    rw [hends t ht, Bool.not_false]
  cases ending with
  | none =>
      have hnil : ts ++ ((none : Option Position).map Token.endAt).toList = ts := by simp
      rw [hnil]
      exact ⟨⟨fun t ht => Lexeme.admits_of_isProper (hts t ht),
        fun t ht => hends t (List.dropLast_subset _ ht)⟩, hinner⟩
  | some q =>
      have hsome : ((some q).map Token.endAt).toList = [Token.endAt q] := rfl
      rw [hsome]
      refine ⟨⟨?_, ?_⟩, ?_⟩
      · intro t ht
        rcases List.mem_append.mp ht with ht | ht
        · exact Lexeme.admits_of_isProper (hts t ht)
        · rw [List.mem_singleton.mp ht]
          rfl
      · rw [List.dropLast_concat]
        exact hends
      · rw [inner, List.filter_append, hinner]
        simp [Token.isEnd, Token.endAt, Lexeme.endOfInput]

/-- A closed regular list has its inner tokens in front of one end token. -/
theorem Regular.closed_eq {ts : List Token} (h : Regular ts) :
    ∃ e, closed ts = inner ts ++ [e] ∧ e.isEnd = true := by
  rcases List.eq_nil_or_concat ts with rfl | ⟨front, t, rfl⟩
  · exact ⟨Token.endAt Position.start, rfl, rfl⟩
  · have hfront : ∀ u ∈ front, u.isEnd = false := by simpa using h.endLast
    have hinner : front.filter (fun u => !u.isEnd) = front := by
      rw [List.filter_eq_self]
      intro u hu
      rw [hfront u hu, Bool.not_false]
    by_cases ht : t.isEnd = true
    · exact ⟨t, by simp [closed, missingEnd, inner, ht, hinner], ht⟩
    · exact ⟨_, by simp [closed, missingEnd, inner, ht, hinner]; rfl, rfl⟩

/-- In front of its end token, a closed regular list has proper tokens only. -/
theorem Regular.isProper_dropLast_closed {ts : List Token} (hts : Regular ts) :
    ∀ t ∈ (closed ts).dropLast, t.isProper = true := by
  obtain ⟨e, hclosed, -⟩ := hts.closed_eq
  rw [hclosed, List.dropLast_concat]
  exact hts.isProper_of_mem_inner

/-- An end token behind tokens none of which is one stands at the end. -/
theorem eq_front_of_isEnd {us front rest : List Token} {x e : Token}
    (h : us ++ x :: rest = front ++ [e]) (hx : x.isEnd = true)
    (hfront : ∀ t ∈ front, t.isEnd = false) : us = front := by
  rcases List.eq_nil_or_concat rest with rfl | ⟨rest, y, rfl⟩
  · exact (List.append_inj' h rfl).1
  · have hsplit : us ++ x :: rest = front := by
      rw [List.concat_eq_append, ← List.cons_append, ← List.append_assoc] at h
      exact (List.append_inj' h rfl).1
    have hend := hfront x (by rw [← hsplit]; simp)
    rw [hx] at hend
    exact absurd hend (by decide)

/-- A regular list is parsed without a diagnostic exactly if its inner tokens spell statements, and
then as these. -/
theorem parse_quiet_iff {ts : List Token} (hts : Regular ts) {ss : List Stmt} :
    ((parse ts).errors = [] ∧ (parse ts).program.statements = ss) ↔
      Grammar.Statements (inner ts) ss := by
  obtain ⟨e, hclosed, he⟩ := hts.closed_eq
  have hlive := Feed.live_ofTokens ts
  have htokens := Feed.ofTokens_tokens ts
  rw [hclosed] at htokens
  constructor
  · rintro ⟨hquiet, rfl⟩
    obtain ⟨us, hpasses, hspells, hend⟩ := Parse.statements_sound _ hlive hquiet
    have hall := hpasses.tokens
    rw [htokens] at hall
    have hinner : ∀ t ∈ inner ts, t.isEnd = false := by
      intro t ht
      simpa [inner] using (List.mem_filter.mp ht).2
    rw [← eq_front_of_isEnd hall.symm hend hinner]
    exact hspells
  · intro hspells
    have hpasses : (Feed.ofTokens ts).Passes (inner ts) ⟨e, [], false⟩ :=
      ⟨hlive.free.symm, htokens⟩
    have hrounds : (inner ts).length ≤ Parse.allowance (closed ts).length := by
      rw [hclosed, List.length_append, Parse.allowance]
      omega
    obtain ⟨hitems, -, hquiet⟩ := Parse.statements_complete hspells hlive hpasses he hrounds
    exact ⟨hquiet, hitems⟩

/-- What is parsed without a diagnostic is a well-formed program, and the text it was written as. -/
theorem parse_sound {ts : List Token} (hts : Regular ts) (hquiet : (parse ts).errors = []) :
    (parse ts).program.WellFormed ∧
      (parse ts).program.lexemes = (inner ts).map (·.toLexeme) := by
  have hspells := (parse_quiet_iff hts).mp ⟨hquiet, rfl⟩
  obtain ⟨hgrammatical, hlexemes⟩ := hspells.lexemes hts.isProper_of_mem_inner
  refine ⟨⟨hgrammatical, ?_⟩, hlexemes⟩
  intro x hx
  rw [Program.lexemes, hlexemes] at hx
  obtain ⟨t, ht, rfl⟩ := List.mem_map.mp hx
  exact hts.isProper_of_mem_inner t ht

/-- A well-formed program that is written down is parsed without a diagnostic, and read back. -/
theorem parse_complete {ts : List Token} (hts : Regular ts) {p : Program} (hp : p.WellFormed)
    (hlexemes : p.lexemes = (inner ts).map (·.toLexeme)) :
    (parse ts).errors = [] ∧ p.unplaced = (parse ts).program.unplaced := by
  obtain ⟨ss', hspells, hsame⟩ :=
    Grammar.statements_of_lexemes hp.grammatical hp.proper hlexemes.symm
  obtain ⟨hquiet, hitems⟩ := (parse_quiet_iff hts).mpr hspells
  refine ⟨hquiet, ?_⟩
  rw [Program.unplaced, Program.unplaced, hitems, hsame]

/-- **The parser accepts exactly its grammar.** A regular list is parsed without a diagnostic if and
only if its lexemes are those of a well-formed program. Then the parser gives such a program, and
every program with these lexemes is the same up to positions. -/
theorem parse_accepts_iff (ts : List Token) (hts : Regular ts) :
    ((parse ts).errors = [] ↔
        ∃ p : Program, p.WellFormed ∧ p.lexemes = (inner ts).map (·.toLexeme)) ∧
      ((parse ts).errors = [] → (parse ts).program.WellFormed ∧
        (parse ts).program.lexemes = (inner ts).map (·.toLexeme)) ∧
      ∀ p : Program, p.WellFormed → p.lexemes = (inner ts).map (·.toLexeme) →
        p.unplaced = (parse ts).program.unplaced := by
  refine ⟨⟨fun hquiet => ⟨_, parse_sound hts hquiet⟩, ?_⟩, parse_sound hts, ?_⟩
  · rintro ⟨p, hp, hlexemes⟩
    exact (parse_complete hts hp hlexemes).1
  · intro p hp hlexemes
    exact (parse_complete hts hp hlexemes).2

/-- A declared variable that a loop counts up. -/
def countingLoop : Program :=
  let a : Expr := .identifier "a" Position.nowhere
  let one : Expr := .number "1" Position.nowhere
  ⟨[.declaration "int" "a" one Position.nowhere,
    .loop [.assignment "a" (.binary a "+" one Position.nowhere) Position.nowhere]
      (.binary a "==" (.number "9" Position.nowhere) Position.nowhere) Position.nowhere]⟩

/-- The lexemes of a loop that counts a variable up, all at one place, are read without an error. -/
theorem parse_accepts_countingLoop :
    Regular (countingLoop.lexemes.map fun x => ⟨x, Position.start⟩) ∧
      (parse (countingLoop.lexemes.map fun x => ⟨x, Position.start⟩)).errors = [] ∧
      countingLoop.unplaced =
        (parse (countingLoop.lexemes.map fun x => ⟨x, Position.start⟩)).program.unplaced := by
  have hregular : Regular (countingLoop.lexemes.map fun x => ⟨x, Position.start⟩) :=
    ⟨by decide, by decide⟩
  have hwell : countingLoop.WellFormed := ⟨by decide, by decide⟩
  obtain ⟨haccepts, -, hsame⟩ := parse_accepts_iff _ hregular
  exact ⟨hregular, haccepts.mpr ⟨countingLoop, hwell, rfl⟩, hsame countingLoop hwell rfl⟩

end DoWhile
