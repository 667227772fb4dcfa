import DoWhile.Proofs.Parse.Composition
import DoWhile.Proofs.Parse.Relabeling
import DoWhile.Proofs.Parse.Shape
import DoWhile.Proofs.Token.Order
import Mathlib.Data.List.Forall2
import Mathlib.Logic.Function.Basic

/-!
# The end token

A token list that lacks its end token is closed with one right behind its last token. What is parsed
from a text does not depend on which of the two end tokens stands there, the one of the scan or the
one that was made up: they differ at most in their places, no node stands at either, and a
diagnostic stands at the one exactly if it would stand at the other (`parse_dropLast_scan`).

The two places are the same where no blanks stand at the end of the text (`closed_dropLast_scan`):
no lexeme has a line feed in it, so the end of the last one is as many columns further as the lexeme
has characters.
-/

set_option autoImplicit false

namespace DoWhile

/-! ## Closing a list twice -/

/-- A list that ends in an end token is closed already. -/
theorem closed_of_isEnd (ts : List Token) {e : Token} (he : e.isEnd = true) :
    closed (ts ++ [e]) = ts ++ [e] := by
  simp [closed, missingEnd, he]

/-- Closing a list twice is closing it once. -/
theorem closed_closed (ts : List Token) : closed (closed ts) = closed ts := by
  obtain ⟨front, e, heq, he⟩ := closed_eq_append ts
  rw [heq, closed_of_isEnd front he]

/-- A list is parsed as the list with its end token. -/
theorem parse_closed (ts : List Token) : parse (closed ts) = parse ts := by
  unfold parse Feed.ofTokens
  rw [closed_closed]

/-! ## Where the end stands -/

namespace Position

/-- Behind characters of one line stands the position that is as many columns further. -/
theorem afterAll_of_not_mem (p : Position) {cs : List Char} (hcs : '\n' ∉ cs) :
    p.afterAll cs = ⟨p.line, p.column + cs.length⟩ := by
  induction cs generalizing p with
  | nil => simp
  | cons c cs ih =>
      rw [List.mem_cons, not_or] at hcs
      have hstep : p.after c = ⟨p.line, p.column + 1⟩ := if_neg (Ne.symm hcs.1)
      rw [afterAll_cons, hstep, ih _ hcs.2, List.length_cons]
      congr 1
      push_cast
      omega

end Position

/-- Blanks that do not end in a blank are none. -/
theorem eq_nil_of_blank_end {gap : List Char} (hgap : gap.all isBlank = true)
    (hend : ∀ c ∈ gap.getLast?, isBlank c = false) : gap = [] := by
  rw [← List.getLast?_eq_none_iff, Option.eq_none_iff_forall_not_mem]
  intro c hc
  have hblank : isBlank c = true := List.all_eq_true.mp hgap c (List.mem_of_getLast? hc)
  rw [hend c hc] at hblank
  exact absurd hblank (by decide)

namespace Layout

/-- Without blanks behind the last lexeme, the end token of the layout is the one that its other
tokens lack. -/
theorem closed_dropLast {gap : List Char} {x : Lexeme} {more : Layout}
    (hl : (next gap x more).Sound)
    (hend : ∀ c ∈ (next gap x more).text.getLast?, isBlank c = false) (p : Position) :
    closed ((next gap x more).tokensFrom p).dropLast = (next gap x more).tokensFrom p := by
  induction more generalizing gap x p with
  | last gap' =>
      obtain ⟨-, hx, -, hlast⟩ := hl.of_next
      have hgap : gap'.all isBlank = true := hlast.gaps
      have hnil : gap' = [] := by
        apply eq_nil_of_blank_end hgap
        intro c hc
        apply hend c
        rw [text, List.getLast?_append, List.getLast?_append, text, Option.mem_def.mp hc,
          Option.some_or, Option.some_or, Option.mem_def]
      have hline : '\n' ∉ x.literal.toList := by
        intro hc
        exact absurd (Lexeme.not_isBlank_of_mem hx hc) (by decide)
      have hkind : (⟨x, p.afterAll gap⟩ : Token).isEnd = false := Token.isEnd_of_isProper hx
      subst hnil
      simp [tokensFrom, closed, missingEnd, hkind, Position.afterAll_of_not_mem _ hline,
        String.length_toList]
  | next gap' y more ih =>
      obtain ⟨-, -, -, hmore⟩ := hl.of_next
      have hend' : ∀ c ∈ (next gap' y more).text.getLast?, isBlank c = false := by
        intro c hc
        apply hend c
        rw [text, List.getLast?_append, List.getLast?_append, Option.mem_def.mp hc, Option.some_or,
          Option.some_or, Option.mem_def]
      have hrest := ih hmore hend' ((p.afterAll gap).afterAll x.literal.toList)
      obtain ⟨ts, q, hts, hlexemes⟩ := (next gap' y more).exists_tokensFrom_eq
        ((p.afterAll gap).afterAll x.literal.toList)
      rw [hts, List.dropLast_concat] at hrest
      have hne : ts ≠ [] := by
        rintro rfl
        simp [lexemes] at hlexemes
      rw [tokensFrom, hts, ← List.cons_append, List.dropLast_concat, ← List.singleton_append,
        closed_append _ hne, hrest, List.append_assoc]

end Layout

/-- Where no blanks stand at the end of a text, the end token of the scan is the one that its other
tokens lack. -/
theorem closed_dropLast_scan {source : String}
    (hend : ∀ c ∈ source.toList.getLast?, isBlank c = false) :
    closed (scan source).dropLast = scan source := by
  obtain ⟨l, hl, htext⟩ := exists_sound_text source.toList
  rw [scan_text hl htext]
  rw [← htext] at hend
  cases l with
  | last gap =>
      have hnil : gap = [] := eq_nil_of_blank_end hl.gaps hend
      rw [hnil]
      rfl
  | next gap x more => exact Layout.closed_dropLast hl hend Position.start

/-! ## Nodes that stay where they are -/

namespace Grammar

variable {place : Position → Position}

/-- An operand whose token is not moved stays as it is. -/
theorem relabel_operand {t : Token} {e : Expr} (he : t.operand? = some e)
    (ht : place t.position = t.position) : e.relabel (.moving place) = e := by
  obtain ⟨⟨kind, literal⟩, position⟩ := t
  cases kind <;> simp only [Token.operand?, Option.some.injEq, reduceCtorEq] at he
  · subst he
    exact congrArg (Expr.identifier literal) ht
  · subst he
    exact congrArg (Expr.number literal) ht

/-- An expression of two operands that are not moved stays as it is. -/
theorem relabel_binary {left right : Expr} (operator : String)
    (hleft : left.relabel (.moving place) = left) (hright : right.relabel (.moving place) = right) :
    (Expr.binary left operator right left.position).relabel (.moving place) =
      .binary left operator right left.position := by
  have hposition := left.position_relabel (.moving place)
  rw [hleft] at hposition
  rw [Expr.relabel, hleft, hright, ← hposition]

/-- An expression whose tokens are not moved stays as it is. -/
theorem Expression.relabel_eq {ts : List Token} {e : Expr} (h : Expression ts e)
    (hts : ∀ t ∈ ts, place t.position = t.position) : e.relabel (.moving place) = e := by
  cases h with
  | @operand t _ he => exact relabel_operand he (hts t (by simp))
  | @binary a o b left right ha ho hb =>
      exact relabel_binary o.literal (relabel_operand ha (hts a (by simp)))
        (relabel_operand hb (hts b (by simp)))

/-- A comparison whose tokens are not moved stays as it is. -/
theorem Comparison.relabel_eq {ts : List Token} {e : Expr} (h : Comparison ts e)
    (hts : ∀ t ∈ ts, place t.position = t.position) : e.relabel (.moving place) = e := by
  cases h with
  | @mk a o b left right ha ho hb =>
      exact relabel_binary "==" (relabel_operand ha (hts a (by simp)))
        (relabel_operand hb (hts b (by simp)))

/-- A condition whose tokens are not moved stays as it is. -/
theorem Condition.relabel_eq {ts : List Token} {test : Expr} (h : Condition ts test)
    (hts : ∀ t ∈ ts, place t.position = t.position) : test.relabel (.moving place) = test := by
  cases h with
  | mk _ htest _ _ => exact htest.relabel_eq fun t ht => hts t (by simp [ht])

/-- An assignment whose tokens are not moved stays as it is. -/
theorem AssignmentBlock.relabel_eq {ts : List Token} {s : Stmt} (h : AssignmentBlock ts s)
    (hts : ∀ t ∈ ts, place t.position = t.position) : s.relabel (.moving place) = s := by
  cases h with
  | @mk first _ _ _ hs =>
      cases hs with
      | @mk _ equals semicolon us value _ hvalue _ =>
          have hvalue' := hvalue.relabel_eq fun t ht => hts t (by simp [ht])
          have hfirst : place first.position = first.position := hts first (by simp)
          simp [Stmt.relabel, hvalue', hfirst]

/-- A declaration whose tokens are not moved stays as it is. -/
theorem Declaration.relabel_eq {ts : List Token} {s : Stmt} (h : Declaration ts s)
    (hts : ∀ t ∈ ts, place t.position = t.position) : s.relabel (.moving place) = s := by
  cases h with
  | @mk first name equals semicolon us value _ _ hvalue _ =>
      have hvalue' := hvalue.relabel_eq fun t ht => hts t (by simp [ht])
      have hfirst : place first.position = first.position := hts first (by simp)
      simp [Stmt.relabel, hvalue', hfirst]

/-- Statements whose blocks stay where they are are found unchanged. -/
theorem Found.map_relabel_eq {Block : List Token → Stmt → Prop} {ts : List Token}
    {ss : List Stmt} (h : Found Block ts ss)
    (hblock : ∀ {block s}, Block block s → (∀ t ∈ block, place t.position = t.position) →
      s.relabel (.moving place) = s)
    (hts : ∀ t ∈ ts, place t.position = t.position) :
    ss.map (Stmt.relabel (.moving place)) = ss := by
  have hall := (h.imp fun hs hpart => hblock hs fun t ht => hts t (hpart.subset ht)).forall
  exact (List.map_congr_left hall).trans (List.map_id ss)

/-- A loop whose tokens are not moved stays as it is. -/
theorem LoopBlock.relabel_eq {ts : List Token} {s : Stmt} (h : LoopBlock ts s)
    (hts : ∀ t ∈ ts, place t.position = t.position) : s.relabel (.moving place) = s := by
  cases h with
  | @braced first opening closing word ts us body test _ hbody _ _ htest =>
      have hbody' := hbody.map_relabel_eq (fun hs => hs.relabel_eq) fun t ht => hts t (by simp [ht])
      have htest' := htest.relabel_eq fun t ht => hts t (by simp [List.mem_cons.mp ht])
      have hfirst : place first.position = first.position := hts first (by simp)
      simp [Stmt.relabel, Stmt.relabelAll_eq_map, hbody', htest', hfirst]
  | @bare first word skipped us test _ htest =>
      have htest' := htest.relabel_eq fun t ht => hts t (by simp [List.mem_cons.mp ht])
      have hfirst : place first.position = first.position := hts first (by simp)
      simp [Stmt.relabel, Stmt.relabelAll, htest', hfirst]

/-- A statement whose tokens are not moved stays as it is. -/
theorem StatementBlock.relabel_eq {ts : List Token} {s : Stmt} (h : StatementBlock ts s)
    (hts : ∀ t ∈ ts, place t.position = t.position) : s.relabel (.moving place) = s := by
  cases h with
  | declaration _ hs => exact hs.relabel_eq hts
  | loop _ hs => exact hs.relabel_eq hts
  | assignment hs => exact hs.relabel_eq hts

end Grammar

/-! ## Two end tokens -/

/-- The place of the end token with which the list is closed. -/
def endPosition (ts : List Token) : Position := ((closed ts).getLast (closed_ne_nil ts)).position

/-- The end of a list that is closed at a place is that place. -/
theorem endPosition_of_closed {ts front : List Token} {q : Position}
    (h : closed ts = front ++ [Token.endAt q]) : endPosition ts = q := by
  simp [endPosition, h, Token.endAt]

/-- The two diagnostics have the same wording, and they stand at the same place or at two ends of
the input, the first at `p` and the second at `q`. -/
structure Diagnostic.SameBut (p q : Position) (d e : Diagnostic) : Prop where
  message : d.message = e.message
  place : d.position = e.position ∨ d.position = p ∧ e.position = q

section Moving

variable {ts : List Token} {p q : Position}

/-- Where no token stands at `q`, the relabeling that moves `q` to `p` moves the end token only. -/
theorem map_relabel_endAt (hts : ∀ t ∈ ts, t.position ≠ q) :
    (ts ++ [Token.endAt q]).map (Token.relabel (.moving (Function.update id q p))) =
      ts ++ [Token.endAt p] := by
  have hfront : ts.map (Token.relabel (.moving (Function.update id q p))) = ts := by
    refine (List.map_congr_left fun t ht => ?_).trans (List.map_id ts)
    rw [Token.relabel_moving, Function.update_of_ne (hts t ht), id, id]
  rw [List.map_append, hfront, List.map_singleton, Token.relabel_moving]
  simp [Token.endAt]

/-- Moving the end from one place to another changes a diagnostic in that place only. -/
theorem sameBut_relabel (hts : ∀ t ∈ ts, t.position ≠ q) {d : Diagnostic}
    (hd : ∃ t ∈ ts ++ [Token.endAt q], d.position = t.position) :
    (d.relabel (.moving (Function.update id q p))).SameBut p q d := by
  refine ⟨d.message_relabel _, ?_⟩
  obtain ⟨t, ht, hposition⟩ := hd
  show Function.update id q p d.position = d.position ∨
    Function.update id q p d.position = p ∧ d.position = q
  rw [hposition]
  rcases List.mem_append.mp ht with ht | ht
  · exact .inl (Function.update_of_ne (hts t ht) p id)
  · obtain rfl := List.mem_singleton.mp ht
    exact .inr ⟨Function.update_self q p id, rfl⟩

/-- What is parsed from tokens in front of their end does not depend on where the end stands, if
none of them stands at one of the two ends. -/
theorem parse_endAt (hts : ∀ t ∈ ts, t.position ≠ q) :
    (parse (ts ++ [Token.endAt p])).program = (parse (ts ++ [Token.endAt q])).program ∧
      List.Forall₂ (Diagnostic.SameBut p q) (parse (ts ++ [Token.endAt p])).errors
        (parse (ts ++ [Token.endAt q])).errors := by
  have hclosed : closed (ts ++ [Token.endAt q]) = ts ++ [Token.endAt q] := closed_of_isEnd ts rfl
  obtain ⟨hprogram, herrors⟩ := parse_relabel hclosed fun t _ =>
    t.steady_moving (Function.update id q p)
  rw [map_relabel_endAt hts] at hprogram herrors
  constructor
  · -- every node stands at a token in front of the end, and stays there
    have hfound := parse_found (ts ++ [Token.endAt q])
    rw [hclosed, List.dropLast_concat] at hfound
    rw [hprogram, Program.relabel, hfound.map_relabel_eq (fun hs => hs.relabel_eq) fun t ht =>
      Function.update_of_ne (hts t ht) p id]
  · rw [herrors, List.forall₂_map_left_iff, List.forall₂_same]
    intro d hd
    have hplace := exists_token_of_mem_errors hd
    rw [hclosed] at hplace
    exact sameBut_relabel hts hplace

end Moving

/-- **A missing end token does no harm.** Without its end token, a text is parsed as the same
program, node by node and place by place. The diagnostics are as many and have the same wording one
by one; they stand at the same places, but for those that stand at the end of the input in both
parses. If the text does not end in a blank, both parses are the same in everything. -/
theorem parse_dropLast_scan (source : String) :
    (parse (scan source).dropLast).program = (parse (scan source)).program ∧
      List.Forall₂ (Diagnostic.SameBut (endPosition (scan source).dropLast)
          (endPosition (scan source)))
        (parse (scan source).dropLast).errors (parse (scan source)).errors ∧
      ((∀ c ∈ source.toList.getLast?, isBlank c = false) →
        parse (scan source).dropLast = parse (scan source)) := by
  obtain ⟨l, hl, htext⟩ := exists_sound_text source.toList
  obtain ⟨ts, q, hts, -, hproper⟩ := scan_eq hl htext
  have hapart := scan_pairwise_before source
  have hclosed := closed_scan source
  rw [hts] at hapart hclosed
  have hdrop : (scan source).dropLast = ts := by rw [hts, List.dropLast_concat]
  obtain ⟨p, hp⟩ := exists_closed_eq fun t ht =>
    Token.isEnd_of_isProper (hproper t (List.mem_of_getLast? ht))
  have hne : ∀ t ∈ ts, t.position ≠ q := fun t ht =>
    ((List.pairwise_append.mp hapart).2.2 t ht _ (List.mem_singleton_self _)).ne
  obtain ⟨hprogram, herrors⟩ := parse_endAt (p := p) hne
  refine ⟨?_, ?_, fun hend => ?_⟩
  · rw [hdrop, ← parse_closed ts, hp, hprogram, hts]
  · rw [hdrop, endPosition_of_closed hp, hts, endPosition_of_closed hclosed, ← parse_closed ts, hp]
    exact herrors
  · rw [← parse_closed, closed_dropLast_scan hend]

/-- A text that breaks off behind a sign of assignment. -/
def breakingText : String := "int a = 1;\ndo \x7b a ="

/-- Without its end token, the scan of a text that does not end in a blank is read in the same
way. -/
theorem parse_dropLast_scan_breakingText :
    (∀ c ∈ breakingText.toList.getLast?, isBlank c = false) ∧
      parse (scan breakingText).dropLast = parse (scan breakingText) := by
  have hlast : breakingText.toList.getLast? = some '=' := by decide
  have hend : ∀ c ∈ breakingText.toList.getLast?, isBlank c = false := by
    rw [hlast]
    rintro c ⟨⟩
    rfl
  obtain ⟨-, -, hsame⟩ := parse_dropLast_scan breakingText
  exact ⟨hend, hsame hend⟩

end DoWhile
