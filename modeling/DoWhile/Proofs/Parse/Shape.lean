import DoWhile.Proofs.Checker.Exact
import DoWhile.Proofs.Parse.Recovery

/-!
# The shape of what is read

Every statement that is parsed is one that the grammar builds, from whatever tokens and through
whatever errors (`parse_isGrammatical`), so a check of it meets no node that it does not know. If
the tokens come from a text, names and numbers are spelled as such too, and the program is
well-formed (`wellFormed_parse_scan`). Written down and parsed again, it is accepted and gives
itself (`parse_shape`).
-/

set_option autoImplicit false

namespace DoWhile

/-- The lexemes of statements are those of each of them. -/
theorem Stmt.mem_lexemesAll {ss : List Stmt} {x : Lexeme} :
    x ∈ lexemesAll ss ↔ ∃ s ∈ ss, x ∈ s.lexemes := by
  induction ss with
  | nil => simp [lexemesAll]
  | cons s ss ih => simp [lexemesAll, ih]

namespace Grammar

/-- Statements found in blocks of one form are found in those of another, if parts of the row that
have the first form have the second one. -/
theorem Found.imp {Block Other : List Token → Stmt → Prop} {ts : List Token} {ss : List Stmt}
    (h : Found Block ts ss)
    (himp : ∀ {block s}, Block block s → block <:+: ts → Other block s) : Found Other ts ss := by
  induction h with
  | none skipped => exact .none skipped
  | @next skipped block ts s ss hs _ ih =>
      have hblock : block <:+: skipped ++ (block ++ ts) :=
        ⟨skipped, ts, List.append_assoc skipped block ts⟩
      have hrest : ts <:+: skipped ++ (block ++ ts) :=
        ((List.suffix_append block ts).trans (List.suffix_append skipped _)).isInfix
      exact .next skipped (himp hs hblock) (ih fun hs hpart => himp hs (hpart.trans hrest))

/-- What holds of the statement of every block holds of all statements that are found. -/
theorem Found.forall {Q : Stmt → Prop} {ts : List Token} {ss : List Stmt}
    (h : Found (fun _ s => Q s) ts ss) : ∀ s ∈ ss, Q s := by
  induction h with
  | none _ => exact List.forall_mem_nil Q
  | next _ hs _ ih => exact List.forall_mem_cons.mpr ⟨hs, ih⟩

/-! ## From any tokens -/

/-- What is derived as a comparison is one. -/
theorem Comparison.isComparison {ts : List Token} {e : Expr} (h : Comparison ts e) :
    e.isComparison = true := by
  cases h with
  | mk ha _ hb =>
      simp [Expr.isComparison, (isOperand_of_operand? ha).1, (isOperand_of_operand? hb).1]

/-- What is read from an assignment block is an assignment as the grammar builds it. -/
theorem AssignmentBlock.isAssignment {ts : List Token} {s : Stmt} (h : AssignmentBlock ts s) :
    s.isAssignment = true := by
  cases h with
  | mk _ hs =>
      cases hs with
      | mk _ hvalue _ => exact hvalue.lexemes.1

/-- What is read from a loop block is as the grammar builds it. -/
theorem LoopBlock.isGrammatical {ts : List Token} {s : Stmt} (h : LoopBlock ts s) :
    s.isGrammatical = true := by
  cases h with
  | @braced _ _ _ _ _ _ body test _ hbody _ _ htest =>
      have hall : body.all Stmt.isAssignment = true :=
        List.all_eq_true.mpr (hbody.imp fun hs _ => hs.isAssignment).forall
      cases htest with
      | mk _ htest _ _ => rw [Stmt.isGrammatical, hall, htest.isComparison, Bool.and_self]
  | bare _ htest =>
      cases htest with
      | mk _ htest _ _ => exact htest.isComparison

/-- What is read from a statement block is as the grammar builds it. -/
theorem StatementBlock.isGrammatical {ts : List Token} {s : Stmt} (h : StatementBlock ts s) :
    s.isGrammatical = true := by
  cases h with
  | declaration hfirst hs =>
      cases hs with
      | mk _ _ hvalue _ => simp [Stmt.isGrammatical, hfirst, hvalue.lexemes.1]
  | loop _ hs => exact hs.isGrammatical
  | assignment hs =>
      have hassignment := hs.isAssignment
      cases hs with
      | mk _ hs =>
          cases hs
          exact hassignment

/-! ## From proper tokens -/

/-- Lexemes that occur among proper tokens are proper. -/
theorem isProper_of_lexemes {ts : List Token} {xs : List Lexeme}
    (hproper : ∀ t ∈ ts, t.isProper = true) (hxs : xs ⊆ ts.map (·.toLexeme)) :
    ∀ x ∈ xs, x.isProper = true := by
  intro x hx
  obtain ⟨t, ht, rfl⟩ := List.mem_map.mp (hxs hx)
  exact hproper t ht

/-- An assignment from proper tokens has proper lexemes. -/
theorem AssignmentBlock.isProper {ts : List Token} {s : Stmt} (h : AssignmentBlock ts s)
    (hproper : ∀ t ∈ ts, t.isProper = true) : ∀ x ∈ s.lexemes, x.isProper = true := by
  cases h with
  | mk hfirst hs =>
      have hlexemes := (hs.lexemes (by simpa using hfirst) hproper).2
      exact isProper_of_lexemes hproper (by rw [hlexemes]; exact fun _ h => h)

/-- A condition from proper tokens has proper lexemes. -/
theorem Condition.isProper {word : Token} {us : List Token} {test : Expr}
    (h : Condition (word :: us) test) (hproper : ∀ t ∈ us, t.isProper = true) :
    ∀ x ∈ test.lexemes, x.isProper = true := by
  have hlexemes := (h.lexemes hproper).2
  apply isProper_of_lexemes hproper
  rw [← hlexemes]
  intro x hx
  simp [hx]

/-- The marks that a loop is written with are proper. -/
theorem isProper_loop {body : List Stmt} {test : Expr} {p : Position}
    (hbody : ∀ x ∈ Stmt.lexemesAll body, x.isProper = true)
    (htest : ∀ x ∈ test.lexemes, x.isProper = true) :
    ∀ x ∈ (Stmt.loop body test p).lexemes, x.isProper = true := by
  have hfront : ∀ x ∈ [(⟨.reserved, "do"⟩ : Lexeme), ⟨.symbol, "\x7b"⟩], x.isProper = true := by
    decide
  have hmiddle : ∀ x ∈ [(⟨.symbol, "\x7d"⟩ : Lexeme), ⟨.reserved, "while"⟩, ⟨.symbol, "("⟩],
      x.isProper = true := by decide
  have hback : ∀ x ∈ [(⟨.symbol, ")"⟩ : Lexeme), ⟨.symbol, ";"⟩], x.isProper = true := by decide
  have hparts := List.forall_mem_append.mpr ⟨hfront, List.forall_mem_append.mpr ⟨hbody,
    List.forall_mem_append.mpr ⟨hmiddle, List.forall_mem_append.mpr ⟨htest, hback⟩⟩⟩⟩
  exact hparts

/-- A loop from proper tokens has proper lexemes. -/
theorem LoopBlock.isProper {ts : List Token} {s : Stmt} (h : LoopBlock ts s)
    (hproper : ∀ t ∈ ts, t.isProper = true) : ∀ x ∈ s.lexemes, x.isProper = true := by
  cases h with
  | braced _ hbody _ _ htest =>
      apply isProper_loop
      · intro x hx
        obtain ⟨s, hs, hx⟩ := Stmt.mem_lexemesAll.mp hx
        exact (hbody.imp fun hs hpart => hs.isProper fun t ht =>
          hproper t (by simp [hpart.subset ht])).forall s hs x hx
      · exact htest.isProper fun t ht => hproper t (by simp [ht])
  | bare _ htest =>
      apply isProper_loop
      · simp [Stmt.lexemesAll]
      · exact htest.isProper fun t ht => hproper t (by simp [ht])

/-- A statement from proper tokens has proper lexemes. -/
theorem StatementBlock.isProper {ts : List Token} {s : Stmt} (h : StatementBlock ts s)
    (hproper : ∀ t ∈ ts, t.isProper = true) : ∀ x ∈ s.lexemes, x.isProper = true := by
  cases h with
  | declaration hfirst hs =>
      have hlexemes := (hs.lexemes (by simpa using hfirst) hproper).2
      exact isProper_of_lexemes hproper (by rw [hlexemes]; exact fun _ h => h)
  | loop _ hs => exact hs.isProper hproper
  | assignment hs => exact hs.isProper hproper

end Grammar

/-! ## Whole programs -/

/-- Whatever the tokens, every statement that is parsed is one that the grammar builds. -/
theorem parse_isGrammatical (tokens : List Token) :
    (parse tokens).program.statements.all Stmt.isGrammatical = true :=
  List.all_eq_true.mpr ((parse_found tokens).imp fun hs _ => hs.isGrammatical).forall

/-- In front of its last token, the scan of a text has proper tokens only. -/
theorem isProper_dropLast_scan (source : String) :
    ∀ t ∈ (scan source).dropLast, t.isProper = true := by
  obtain ⟨ts, q, hts, hproper⟩ := exists_scan_eq source
  rw [hts, List.dropLast_concat]
  exact hproper

/-- Whatever the errors of a text, the program that is read from it is well-formed. -/
theorem wellFormed_parse_scan (source : String) : (parse (scan source)).program.WellFormed := by
  have hfound := parse_scan_found source
  have hproper := isProper_dropLast_scan source
  refine ⟨parse_isGrammatical _, ?_⟩
  intro x hx
  obtain ⟨s, hs, hx⟩ := Stmt.mem_lexemesAll.mp hx
  exact (hfound.imp fun hs hpart => hs.isProper fun t ht =>
    hproper t (hpart.subset ht)).forall s hs x hx

/-- The tokens of a program that is written down, each lexeme at a place of its own. -/
def Program.written (p : Program) (place : Nat → Position) : List Token :=
  p.lexemes.mapIdx fun i x => ⟨x, place i⟩

/-- A program that is written down has its lexemes. -/
theorem Program.lexemes_written (p : Program) (place : Nat → Position) :
    (p.written place).map (·.toLexeme) = p.lexemes := by
  apply List.ext_getElem <;> simp [written]

/-- A well-formed program that is written down at any places, with an end of the input or without
one, is parsed without a diagnostic, and read back. -/
theorem parse_written {p : Program} (hp : p.WellFormed) (place : Nat → Position)
    (ending : Option Position) :
    (parse (p.written place ++ (ending.map Token.endAt).toList)).errors = [] ∧
      (parse (p.written place ++ (ending.map Token.endAt).toList)).program.unplaced =
        p.unplaced := by
  have hlexemes := p.lexemes_written place
  have hproper : ∀ t ∈ p.written place, t.isProper = true := by
    intro t ht
    apply hp.proper
    rw [← hlexemes]
    exact List.mem_map_of_mem ht
  obtain ⟨hregular, hinner⟩ := regular_of_isProper hproper ending
  obtain ⟨hquiet, hsame⟩ := parse_complete hregular hp (by rw [hinner, hlexemes])
  exact ⟨hquiet, hsame.symm⟩

/-- **Only programs of the right shape are read.** From any tokens, every statement that is parsed
is one that the grammar builds, and a check of the program is stopped by no fault, whichever names
are implicit. The program that is read from a text, whatever errors it has, can be written down
again at any places; then it is parsed without a diagnostic and gives the same program. -/
theorem parse_shape (tokens : List Token) (implicit : List String) (source : String)
    (place : Nat → Position) (ending : Option Position) :
    (parse tokens).program.statements.all Stmt.isGrammatical = true ∧
      ((parse tokens).program.check implicit).fault = none ∧
      (parse ((parse (scan source)).program.written place ++
        (ending.map Token.endAt).toList)).errors = [] ∧
      (parse ((parse (scan source)).program.written place ++
        (ending.map Token.endAt).toList)).program.unplaced =
          (parse (scan source)).program.unplaced := by
  obtain ⟨hquiet, hsame⟩ := parse_written (wellFormed_parse_scan source) place ending
  exact ⟨parse_isGrammatical tokens, (Checker.check_outcome implicit _).1, hquiet, hsame⟩

end DoWhile
