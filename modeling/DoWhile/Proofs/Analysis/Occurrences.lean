import DoWhile.Analysis
import DoWhile.Proofs.Parse.Shape
import DoWhile.Proofs.Token.Order

/-!
# Where names stand

Every used name is an identifier of the text, and every declaration begins with the word `int` and
the declared name right behind it. Both come in the order in which the tokens are read, whatever the
parser has skipped (`uses_sublist`, `declarations_sublist`). A check reports repeated declarations
and unknown uses in this order, so its diagnostics point at real tokens, go forward through the text
within each of the two groups, and none is raised twice (`namingErrors_occurrences`).
-/

set_option autoImplicit false

namespace DoWhile

/-- The token of a used name. -/
def Used.token (u : Used) : Token := ⟨⟨.identifier, u.name⟩, u.position⟩

/-- The first token of a declaration. -/
def Declared.token (d : Declared) : Token := ⟨⟨.reserved, "int"⟩, d.position⟩

/-- Does the declaration stand in the tokens: the word `int`, and the declared name behind it? -/
def Declared.StandsIn (ts : List Token) (d : Declared) : Prop :=
  ∃ q : Position, [d.token, ⟨⟨.identifier, d.name⟩, q⟩] <:+: ts

/-- A declaration that stands in a part of the tokens stands in the tokens. -/
theorem Declared.StandsIn.mono {ts us : List Token} {d : Declared} (h : d.StandsIn ts)
    (hpart : ts <:+: us) : d.StandsIn us := by
  obtain ⟨q, hq⟩ := h
  exact ⟨q, hq.trans hpart⟩

namespace Grammar

/-- What is drawn from each block in order is drawn from the whole row in order. -/
theorem Found.sublist {marks : Stmt → List Token} {ts : List Token} {ss : List Stmt}
    (h : Found (fun block s => (marks s).Sublist block) ts ss) :
    (ss.flatMap marks).Sublist ts := by
  induction h with
  | none skipped => exact List.nil_sublist skipped
  | @next skipped block ts s ss hs _ ih =>
      rw [List.flatMap_cons]
      exact (hs.append ih).trans (List.sublist_append_right skipped _)

/-! ## Uses -/

/-- What an operand uses is its token, if it is a name. -/
theorem uses_operand {t : Token} {e : Expr} (h : t.operand? = some e) :
    (e.uses.map Used.token).Sublist [t] := by
  obtain ⟨⟨kind, literal⟩, position⟩ := t
  cases kind <;> simp only [Token.operand?, Option.some.injEq, reduceCtorEq] at h
  · subst h
    exact List.Sublist.refl _
  · subst h
    exact List.nil_sublist _

/-- The names on the two sides of an operator come in order. -/
theorem uses_binary {a o b : Token} {left right : Expr} {operator : String} {p : Position}
    (ha : a.operand? = some left) (hb : b.operand? = some right) :
    ((Expr.binary left operator right p).uses.map Used.token).Sublist [a, o, b] := by
  rw [Expr.uses, List.map_append]
  exact (uses_operand ha).append ((uses_operand hb).cons o)

/-- The uses of an expression come in the order of its tokens. -/
theorem Expression.uses_sublist {ts : List Token} {e : Expr} (h : Expression ts e) :
    (e.uses.map Used.token).Sublist ts := by
  cases h with
  | operand he => exact uses_operand he
  | binary ha _ hb => exact uses_binary ha hb

/-- The uses of a comparison come in the order of its tokens. -/
theorem Comparison.uses_sublist {ts : List Token} {e : Expr} (h : Comparison ts e) :
    (e.uses.map Used.token).Sublist ts := by
  cases h with
  | mk ha _ hb => exact uses_binary ha hb

/-- The uses of a condition come in the order of its tokens. -/
theorem Condition.uses_sublist {ts : List Token} {test : Expr} (h : Condition ts test) :
    (test.uses.map Used.token).Sublist ts := by
  cases h with
  | @mk word opening closing semicolon _ _ _ htest _ _ =>
      have hbehind := htest.uses_sublist.trans (List.sublist_append_left _ [closing, semicolon])
      exact (hbehind.cons opening).cons word

/-- The uses of an assignment come in the order of its tokens, the target first. -/
theorem AssignmentBlock.uses_sublist {ts : List Token} {s : Stmt} (h : AssignmentBlock ts s) :
    (s.uses.map Used.token).Sublist ts := by
  cases h with
  | @mk first _ _ hfirst hs =>
      cases hs with
      | @mk _ equals semicolon _ value _ hvalue _ =>
          have htarget : Used.token ⟨first.literal, first.position⟩ = first := by
            rw [Used.token, ← hfirst]
          rw [Stmt.uses, List.map_cons, htarget]
          have hbehind := hvalue.uses_sublist.trans (List.sublist_append_left _ [semicolon])
          exact (hbehind.cons equals).cons_cons first

/-- The names that statements use come in the order of their blocks. -/
theorem Found.uses_sublist {ts : List Token} {ss : List Stmt}
    (h : Found (fun block s => (s.uses.map Used.token).Sublist block) ts ss) :
    ((Stmt.usesAll ss).map Used.token).Sublist ts := by
  rw [Stmt.usesAll_eq_flatMap, List.map_flatMap]
  exact h.sublist

/-- The uses of a loop come in the order of its tokens. -/
theorem LoopBlock.uses_sublist {ts : List Token} {s : Stmt} (h : LoopBlock ts s) :
    (s.uses.map Used.token).Sublist ts := by
  cases h with
  | @braced first opening closing word ts us body test _ hbody _ _ htest =>
      have hitems := (hbody.imp fun hs _ => hs.uses_sublist).uses_sublist
      rw [Stmt.uses, List.map_append]
      exact ((hitems.append (htest.uses_sublist.cons closing)).cons opening).cons first
  | @bare first word skipped us test _ htest =>
      rw [Stmt.uses, Stmt.usesAll, List.nil_append]
      exact (htest.uses_sublist.trans (List.sublist_append_right skipped _)).cons first

/-- The uses of a statement come in the order of its tokens. -/
theorem StatementBlock.uses_sublist {ts : List Token} {s : Stmt} (h : StatementBlock ts s) :
    (s.uses.map Used.token).Sublist ts := by
  cases h with
  | @declaration first _ _ _ hs =>
      cases hs with
      | @mk _ name equals semicolon _ _ _ _ hvalue _ =>
          have hbehind := hvalue.uses_sublist.trans (List.sublist_append_left _ [semicolon])
          exact ((hbehind.cons equals).cons name).cons first
  | loop _ hs => exact hs.uses_sublist
  | assignment hs => exact hs.uses_sublist

/-! ## Declarations -/

/-- An assignment declares nothing. -/
theorem AssignmentBlock.declarations {ts : List Token} {s : Stmt} (h : AssignmentBlock ts s) :
    s.declarations = [] := by
  cases h with
  | mk _ hs =>
      cases hs
      rfl

/-- No name is declared inside of a loop. -/
theorem LoopBlock.declarations {ts : List Token} {s : Stmt} (h : LoopBlock ts s) :
    s.declarations = [] := by
  cases h with
  | braced _ hbody _ _ _ =>
      have hnone := (hbody.imp fun hs _ => hs.declarations).forall
      rw [Stmt.declarations, Stmt.declarationsAll_eq_flatMap]
      exact List.flatMap_eq_nil_iff.mpr hnone
  | bare _ _ => rfl

/-- A block declares nothing, or one name, the second token, at the place of the word `int`, the
first one. -/
theorem StatementBlock.declarations {ts : List Token} {s : Stmt} (h : StatementBlock ts s)
    (hproper : ∀ t ∈ ts, t.isProper = true) :
    s.declarations = [] ∨ ∃ (d : Declared) (q : Position) (us : List Token),
      s.declarations = [d] ∧ ts = d.token :: ⟨⟨.identifier, d.name⟩, q⟩ :: us := by
  cases h with
  | @declaration first _ _ hfirst hs =>
      cases hs with
      | @mk _ name equals semicolon ts _ hname _ _ _ =>
          have hint : first.toLexeme = ⟨.reserved, "int"⟩ :=
            Lexeme.eq_of_literal (hproper first (by simp)) rfl hfirst
          refine .inr ⟨_, name.position, equals :: (ts ++ [semicolon]), rfl, ?_⟩
          rw [Declared.token, ← hint, ← hname]
  | loop _ hs => exact .inl hs.declarations
  | assignment hs => exact .inl hs.declarations

/-- The declarations of a statement come in the order of its tokens. -/
theorem StatementBlock.declarations_sublist {ts : List Token} {s : Stmt} (h : StatementBlock ts s)
    (hproper : ∀ t ∈ ts, t.isProper = true) :
    (s.declarations.map Declared.token).Sublist ts := by
  obtain hnone | ⟨d, q, us, hd, rfl⟩ := h.declarations hproper
  · rw [hnone]
    exact List.nil_sublist ts
  · rw [hd]
    exact (List.nil_sublist _).cons_cons d.token

/-- Every declaration of a statement stands in its tokens. -/
theorem StatementBlock.standsIn {ts : List Token} {s : Stmt} (h : StatementBlock ts s)
    (hproper : ∀ t ∈ ts, t.isProper = true) : ∀ d ∈ s.declarations, d.StandsIn ts := by
  intro d hd
  obtain hnone | ⟨e, q, us, he, rfl⟩ := h.declarations hproper
  · rw [hnone] at hd
    exact absurd hd List.not_mem_nil
  · rw [he, List.mem_singleton] at hd
    subst hd
    exact ⟨q, [], us, rfl⟩

end Grammar

/-! ## The names of a token list -/

/-- The used names are identifiers among the tokens, in front of the last one, and come in their
order. -/
theorem parse_uses_sublist (ts : List Token) :
    ((parse ts).program.uses.map Used.token).Sublist (closed ts).dropLast :=
  ((parse_found ts).imp fun hs _ => hs.uses_sublist).uses_sublist

/-- Behind the first token of each declaration stands the declared name, in front of the last
token. -/
theorem parse_declarations_standIn {ts : List Token}
    (hproper : ∀ t ∈ (closed ts).dropLast, t.isProper = true) :
    ∀ d ∈ (parse ts).program.declarations, d.StandsIn (closed ts).dropLast := by
  have hblocks := (parse_found ts).imp fun hs hpart d hd =>
    (hs.standsIn (fun t ht => hproper t (hpart.subset ht)) d hd).mono hpart
  intro d hd
  rw [Program.declarations, Stmt.declarationsAll_eq_flatMap] at hd
  obtain ⟨s, hs, hd⟩ := List.mem_flatMap.mp hd
  exact hblocks.forall s hs d hd

/-! ## The names of a text -/

/-- The used names are identifiers of the text and come in its order. -/
theorem uses_sublist (source : String) :
    ((parse (scan source)).program.uses.map Used.token).Sublist (scan source) := by
  have huses := parse_uses_sublist (scan source)
  rw [closed_scan] at huses
  exact huses.trans (List.dropLast_sublist _)

/-- The declarations begin with tokens of the text and come in its order. -/
theorem declarations_sublist (source : String) :
    ((parse (scan source)).program.declarations.map Declared.token).Sublist (scan source) := by
  have hproper := isProper_dropLast_scan source
  have hblocks := (parse_scan_found source).imp fun hs hpart =>
    hs.declarations_sublist fun t ht => hproper t (hpart.subset ht)
  rw [Program.declarations, Stmt.declarationsAll_eq_flatMap, List.map_flatMap]
  exact hblocks.sublist.trans (List.dropLast_sublist _)

/-- Behind the first token of each declaration stands the declared name. -/
theorem declarations_standIn (source : String) :
    ∀ d ∈ (parse (scan source)).program.declarations, d.StandsIn (scan source) := by
  have hproper := isProper_dropLast_scan source
  have hscan : (scan source).dropLast <:+: scan source := (List.dropLast_prefix _).isInfix
  rw [← closed_scan] at hproper hscan
  intro d hd
  rw [← closed_scan]
  exact (parse_declarations_standIn hproper d hd).mono hscan

/-- The declarations that are read from a text stand one behind the other. -/
theorem declarations_pairwise (source : String) :
    (parse (scan source)).program.declarations.Pairwise fun d e =>
      d.position.Before e.position := by
  have hsorted := (scan_pairwise_before source).sublist (declarations_sublist source)
  rw [List.pairwise_map] at hsorted
  exact hsorted

/-- The uses that are read from a text stand one behind the other. -/
theorem uses_pairwise (source : String) :
    (parse (scan source)).program.uses.Pairwise fun u v => u.position.Before v.position := by
  have hsorted := (scan_pairwise_before source).sublist (uses_sublist source)
  rw [List.pairwise_map] at hsorted
  exact hsorted

/-! ## The diagnostics of an analysis -/

/-- Is the name declared at the place, and somewhere before it? -/
structure Analysis.DeclaresAgain (a : Analysis) (name : String) (p : Position) : Prop where
  stands : ∃ q : Position,
    [⟨⟨.reserved, "int"⟩, p⟩, ⟨⟨.identifier, name⟩, q⟩] <:+: scan a.source
  earlier : ∃ e ∈ a.program.declarations, e.name = name ∧ e.position.Before p

/-- Does the name stand at the place, without being implicit or declared anywhere? -/
structure Analysis.UsesUnknown (a : Analysis) (implicit : List String) (name : String)
    (p : Position) : Prop where
  stands : ⟨⟨.identifier, name⟩, p⟩ ∈ scan a.source
  notImplicit : name ∉ implicit
  undeclared : ∀ e ∈ a.program.declarations, e.name ≠ name

/-- A repeated declaration of the program is a second declaration of its name in the text. -/
theorem declaresAgain_of_mem_repeats (implicit : List String) (source : String) {d : Declared}
    (hd : d ∈ repeats [] (parse (scan source)).program.declarations) :
    (analyze implicit source).DeclaresAgain d.name d.position := by
  constructor
  · exact declarations_standIn source d ((repeats_sublist [] _).subset hd)
  · obtain ⟨front, back, hsplit, hearlier⟩ := earlier_of_mem_repeats hd
    obtain ⟨e, he, hname⟩ := hearlier.resolve_left List.not_mem_nil
    have hpairwise := declarations_pairwise source
    rw [hsplit, List.pairwise_append] at hpairwise
    have hbefore := hpairwise.2.2 e he d List.mem_cons_self
    have hmem : e ∈ (parse (scan source)).program.declarations := by
      rw [hsplit]
      exact List.mem_append_left _ he
    exact ⟨e, hmem, hname, hbefore⟩

/-- A use that is not known is a use of an unknown name in the text. -/
theorem usesUnknown_of_not_known (implicit : List String) (source : String) {u : Used}
    (hu : u ∈ (parse (scan source)).program.uses)
    (hunknown : ¬ u.Known implicit (parse (scan source)).program.declaredNames) :
    (analyze implicit source).UsesUnknown implicit u.name u.position := by
  rw [Used.Known, not_or] at hunknown
  constructor
  · exact (uses_sublist source).subset (List.mem_map_of_mem hu)
  · exact hunknown.1
  · intro e he hname
    apply hunknown.2
    rw [← hname]
    exact List.mem_map_of_mem he

/-! ### The two groups -/

/-- The diagnostics of an analysis for names that are declared again. -/
def repeatedErrors (source : String) : List Diagnostic :=
  (repeats [] (parse (scan source)).program.declarations).map Declared.again

/-- The diagnostics of an analysis for names that are used without being declared. -/
def unknownErrors (implicit : List String) (source : String) : List Diagnostic :=
  ((parse (scan source)).program.uses.filter fun u =>
    ¬ u.Known implicit (parse (scan source)).program.declaredNames).map Used.unresolved

/-- The diagnostics of names are those of repeated declarations and then those of unknown uses. -/
theorem namingErrors_eq (implicit : List String) (source : String) :
    (analyze implicit source).namingErrors =
      repeatedErrors source ++ unknownErrors implicit source :=
  (Checker.check_outcome implicit (parse (scan source)).program).2.2

/-- The diagnostics of repeated declarations stand one behind the other. -/
theorem repeatedErrors_pairwise (source : String) :
    (repeatedErrors source).Pairwise fun d e => d.position.Before e.position := by
  rw [repeatedErrors, List.pairwise_map]
  exact (declarations_pairwise source).sublist (repeats_sublist [] _)

/-- The diagnostics of unknown uses stand one behind the other. -/
theorem unknownErrors_pairwise (implicit : List String) (source : String) :
    (unknownErrors implicit source).Pairwise fun d e => d.position.Before e.position := by
  rw [unknownErrors, List.pairwise_map]
  exact (uses_pairwise source).sublist List.filter_sublist

/-- A diagnostic of the first group has the text for a name that is declared again. -/
theorem of_mem_repeatedErrors (implicit : List String) {source : String} {d : Diagnostic}
    (hd : d ∈ repeatedErrors source) :
    ∃ n, d.message = "Variable '" ++ n ++ "' already declared" ∧
      (analyze implicit source).DeclaresAgain n d.position := by
  obtain ⟨c, hc, rfl⟩ := List.mem_map.mp hd
  exact ⟨c.name, rfl, declaresAgain_of_mem_repeats implicit source hc⟩

/-- A diagnostic of the second group has the text for a name that is declared nowhere. -/
theorem of_mem_unknownErrors {implicit : List String} {source : String} {d : Diagnostic}
    (hd : d ∈ unknownErrors implicit source) :
    ∃ n, d.message = "Variable '" ++ n ++ "' used before declared" ∧
      (analyze implicit source).UsesUnknown implicit n d.position := by
  obtain ⟨u, hu, rfl⟩ := List.mem_map.mp hd
  obtain ⟨hmem, hunknown⟩ := List.mem_filter.mp hu
  exact ⟨u.name, rfl, usesUnknown_of_not_known implicit source hmem (of_decide_eq_true hunknown)⟩

/-- Diagnostics at different places are different. -/
theorem nodup_of_pairwise_before {ds : List Diagnostic}
    (h : ds.Pairwise fun d e => d.position.Before e.position) :
    (ds.map fun d => (d.message, d.position)).Nodup := by
  rw [List.Nodup, List.pairwise_map]
  exact h.imp fun hbefore heq => hbefore.ne (Prod.mk.inj heq).2

/-- **Where the diagnostics of the names point.** First come those of names that are declared again,
then those of names that are used without being declared, and each group goes strictly forward
through the text, so none is raised twice. A name that is said to be declared again stands behind
the word `int` at the place of the diagnostic and is declared before it; a name that is said to be
used before declared stands at the place of the diagnostic and is neither implicit nor declared
anywhere. -/
theorem namingErrors_occurrences (implicit : List String) (source : String) :
    (∃ again unknown : List Diagnostic,
      (analyze implicit source).namingErrors = again ++ unknown ∧
      (∀ d ∈ again, ∃ n, d.message = "Variable '" ++ n ++ "' already declared") ∧
      (∀ d ∈ unknown, ∃ n, d.message = "Variable '" ++ n ++ "' used before declared") ∧
      (again.Pairwise fun d e => d.position.Before e.position) ∧
      unknown.Pairwise fun d e => d.position.Before e.position) ∧
    (∀ d ∈ (analyze implicit source).namingErrors, ∀ n,
      d.message = "Variable '" ++ n ++ "' already declared" →
        (analyze implicit source).DeclaresAgain n d.position) ∧
    (∀ d ∈ (analyze implicit source).namingErrors, ∀ n,
      d.message = "Variable '" ++ n ++ "' used before declared" →
        (analyze implicit source).UsesUnknown implicit n d.position) ∧
    ((analyze implicit source).namingErrors.map fun d => (d.message, d.position)).Nodup := by
  rw [namingErrors_eq]
  have hrepeated := repeatedErrors_pairwise source
  have hunknown := unknownErrors_pairwise implicit source
  refine ⟨⟨repeatedErrors source, unknownErrors implicit source, rfl, ?_, ?_, hrepeated,
    hunknown⟩, ?_, ?_, ?_⟩
  · intro d hd
    obtain ⟨n, hmessage, -⟩ := of_mem_repeatedErrors implicit hd
    exact ⟨n, hmessage⟩
  · intro d hd
    obtain ⟨n, hmessage, -⟩ := of_mem_unknownErrors hd
    exact ⟨n, hmessage⟩
  · intro d hd n hn
    rcases List.mem_append.mp hd with hd | hd
    · obtain ⟨m, hm, hagain⟩ := of_mem_repeatedErrors implicit hd
      rw [hm, String.append_left_inj, String.append_right_inj] at hn
      exact hn ▸ hagain
    · obtain ⟨m, hm, -⟩ := of_mem_unknownErrors hd
      exact absurd (hn.symm.trans hm) (alreadyDeclared_text_ne n m)
  · intro d hd n hn
    rcases List.mem_append.mp hd with hd | hd
    · obtain ⟨m, hm, -⟩ := of_mem_repeatedErrors implicit hd
      exact absurd (hm.symm.trans hn) (alreadyDeclared_text_ne m n)
    · obtain ⟨m, hm, hused⟩ := of_mem_unknownErrors hd
      rw [hm, String.append_left_inj, String.append_right_inj] at hn
      exact hn ▸ hused
  · rw [List.map_append, List.nodup_append]
    refine ⟨nodup_of_pairwise_before hrepeated, nodup_of_pairwise_before hunknown, ?_⟩
    intro x hx y hy heq
    obtain ⟨d, hd, rfl⟩ := List.mem_map.mp hx
    obtain ⟨e, he, rfl⟩ := List.mem_map.mp hy
    obtain ⟨n, hn, -⟩ := of_mem_repeatedErrors implicit hd
    obtain ⟨m, hm, -⟩ := of_mem_unknownErrors he
    have hsame : d.message = e.message := (Prod.mk.inj heq).1
    exact alreadyDeclared_text_ne n m (hn.symm.trans (hsame.trans hm))

end DoWhile
