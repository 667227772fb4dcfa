import DoWhile.Proofs.Token.Layout

/-!
# Texts that begin elsewhere

A text that begins at some place and not at the start has the same tokens, carried there: all lines
move along, and the columns of the first line do (`Position.carriedTo`). So a scan from any cursor
is the scan of the text in front of it, carried to where the cursor stands
(`Cursor.tokens_scanAll`).

Layouts can be put one behind the other (`Layout.append`). The result is sound if the second one
begins with a blank, for then no lexeme goes on into it (`Layout.Sound.append`). A line feed is such
a blank, and behind it columns count from one again, so a scan can be cut at every line feed
(`scan_append_lineFeed`).
-/

set_option autoImplicit false

namespace DoWhile

/-! ## Places -/

namespace Position

/-- Where the place `q` of a text lies when the text begins at `p` and not at the start. -/
def carriedTo (q p : Position) : Position :=
  ⟨q.line + (p.line - 1), if q.line = 1 then q.column + (p.column - 1) else q.column⟩

/-- The start of a text that begins at a place lies at that place. -/
@[simp] theorem start_carriedTo (p : Position) : start.carriedTo p = p := by
  simp only [start, carriedTo, if_true]
  congr 1 <;> omega

/-- Moving past a character and carrying the text elsewhere can be done in either order. -/
theorem after_carriedTo {q : Position} (hq : 1 ≤ q.line) (p : Position) (c : Char) :
    (q.after c).carriedTo p = (q.carriedTo p).after c := by
  by_cases hc : c = '\n'
  · have hline : q.line + 1 ≠ 1 := by omega
    simp only [after, if_pos hc, carriedTo, if_neg hline, mk.injEq, and_true]
    omega
  · by_cases hline : q.line = 1
    · simp only [after, if_neg hc, carriedTo, if_pos hline, mk.injEq, true_and]
      omega
    · simp only [after, if_neg hc, carriedTo, if_neg hline]

/-- Moving past a character leads to no line in front of the first one. -/
theorem one_le_line_after {q : Position} (hq : 1 ≤ q.line) (c : Char) :
    1 ≤ (q.after c).line := by
  unfold after
  split <;> dsimp only <;> omega

/-- Moving past characters leads to no line in front of the first one. -/
theorem one_le_line_afterAll {q : Position} (hq : 1 ≤ q.line) (cs : List Char) :
    1 ≤ (q.afterAll cs).line := by
  induction cs generalizing q with
  | nil => exact hq
  | cons c cs ih => exact ih (one_le_line_after hq c)

/-- Reading goes on in the same way at the place where the text was carried. -/
theorem afterAll_carriedTo {q : Position} (hq : 1 ≤ q.line) (p : Position) (cs : List Char) :
    (q.afterAll cs).carriedTo p = (q.carriedTo p).afterAll cs := by
  induction cs generalizing q with
  | nil => rfl
  | cons c cs ih =>
      rw [afterAll_cons, afterAll_cons, ih (one_le_line_after hq c), after_carriedTo hq]

end Position

/-! ## Tokens -/

/-- The token as it stands when its text begins at `p` and not at the start. -/
def Token.carriedTo (t : Token) (p : Position) : Token := ⟨t.toLexeme, t.position.carriedTo p⟩

/-- The tokens of a layout are carried with the place at which its text begins. -/
theorem Layout.tokensFrom_carriedTo (l : Layout) {q : Position} (hq : 1 ≤ q.line) (p : Position) :
    l.tokensFrom (q.carriedTo p) = (l.tokensFrom q).map (·.carriedTo p) := by
  induction l generalizing q with
  | last gap =>
      rw [tokensFrom, tokensFrom, ← Position.afterAll_carriedTo hq]
      rfl
  | next gap x more ih =>
      have hgap := Position.one_le_line_afterAll hq gap
      have hmore := Position.one_le_line_afterAll hgap x.literal.toList
      rw [tokensFrom, tokensFrom, List.map_cons, ← ih hmore, Position.afterAll_carriedTo hgap,
        ← Position.afterAll_carriedTo hq]
      rfl

/-- A layout that begins at `p` has the tokens that it has at the start, carried to `p`. -/
theorem Layout.tokensFrom_eq (l : Layout) (p : Position) :
    l.tokensFrom p = (l.tokensFrom Position.start).map (·.carriedTo p) := by
  rw [← l.tokensFrom_carriedTo (Int.le_refl 1), Position.start_carriedTo]

/-- A scan from a cursor finds the tokens of the text in front of it, carried to its place. -/
theorem Cursor.tokens_scanAll (c : Cursor) :
    c.scanAll.tokens = (scan (String.ofList c.rest)).map (·.carriedTo c.position) := by
  obtain ⟨l, hl, htext⟩ := exists_sound_text c.rest
  have htokens : c.scanAll.tokens = l.tokensFrom c.position := readAll_tokens l hl c htext.symm
  rw [htokens, scan_text hl (by rw [htext, String.toList_ofList]), l.tokensFrom_eq]

/-! ## Layouts one behind the other -/

namespace Layout

/-- The layout with the text `gap` in front of it. -/
def indent (gap : List Char) : Layout → Layout
  | last gap' => last (gap ++ gap')
  | next gap' x more => next (gap ++ gap') x more

/-- The layout `m` behind another one: its first gap goes on where the last one ended. -/
def append : Layout → Layout → Layout
  | last gap, m => m.indent gap
  | next gap x more, m => next gap x (more.append m)

/-- Layouts can be put behind one another. -/
instance : Append Layout := ⟨append⟩

variable {gap : List Char} {x : Lexeme} {more m : Layout}

/-- Behind a last gap, a layout is indented by that gap. -/
theorem last_append : last gap ++ m = m.indent gap := rfl

/-- A layout that begins with a lexeme does so with another one behind it. -/
theorem next_append : next gap x more ++ m = next gap x (more ++ m) := rfl

/-- The text of an indented layout has the gap in front. -/
@[simp] theorem text_indent (gap : List Char) (l : Layout) :
    (l.indent gap).text = gap ++ l.text := by
  cases l <;> simp [indent, text]

/-- The text of two layouts is that of the first and then that of the second. -/
@[simp] theorem text_append (l m : Layout) : (l ++ m).text = l.text ++ m.text := by
  induction l with
  | last gap => rw [last_append, text_indent, text]
  | next gap x more ih => rw [next_append, text, ih, text, List.append_assoc, List.append_assoc]

/-- The tokens of an indented layout begin behind the gap. -/
theorem tokensFrom_indent (gap : List Char) (l : Layout) (p : Position) :
    (l.indent gap).tokensFrom p = l.tokensFrom (p.afterAll gap) := by
  cases l <;> simp [indent, tokensFrom]

/-- Every layout has tokens, if only the end of the input. -/
theorem tokensFrom_ne_nil (l : Layout) (p : Position) : l.tokensFrom p ≠ [] := by
  cases l <;> simp [tokensFrom]

/-- The tokens of the first layout without the end of the input, and then those of the second. -/
theorem tokensFrom_append (l m : Layout) (p : Position) :
    (l ++ m).tokensFrom p = (l.tokensFrom p).dropLast ++ m.tokensFrom (p.afterAll l.text) := by
  induction l generalizing p with
  | last gap => rw [last_append, tokensFrom_indent, tokensFrom, text, List.dropLast_singleton,
      List.nil_append]
  | next gap x more ih =>
      rw [next_append, tokensFrom, ih, tokensFrom, List.dropLast_cons_of_ne_nil
        (more.tokensFrom_ne_nil _), text, Position.afterAll_append, Position.afterAll_append,
        List.cons_append]

/-- A sound layout stays sound if it is indented by blanks. -/
theorem Sound.indent {l : Layout} (hl : l.Sound) (hgap : gap.all isBlank = true) :
    (l.indent gap).Sound := by
  obtain ⟨hgaps, hproper, hmax⟩ := hl
  cases l with
  | last gap' => exact ⟨by simpa [Layout.indent, gapsBlank, hgap] using hgaps, hproper, hmax⟩
  | next gap' x more =>
      refine ⟨?_, hproper, hmax⟩
      simpa [Layout.indent, gapsBlank, hgap] using hgaps

/-- A sound layout may stand behind another one if it begins with a blank. -/
theorem Sound.append {l : Layout} (hl : l.Sound) (hm : m.Sound)
    (hhead : ∀ c, m.text.head? = some c → isBlank c = true) : (l ++ m).Sound := by
  induction l with
  | last gap => exact hm.indent hl.gaps
  | next gap x more ih =>
      obtain ⟨hgap, hx, hstop, hmore⟩ := hl.of_next
      obtain ⟨hgaps, hproper, hmax⟩ := ih hmore
      refine ⟨?_, ?_, ?_, hmax⟩
      · rw [next_append, gapsBlank, hgap, hgaps, Bool.and_self]
      · rw [next_append, lexemes, List.forall_mem_cons]
        exact ⟨hx, hproper⟩
      · -- behind `x` stands what stood there before, or the blank with which `m` begins
        intro c (hc : (more ++ m).text.head? = some c)
        rw [text_append, List.head?_append] at hc
        cases hfirst : more.text.head? with
        | none =>
            rw [hfirst, Option.none_or] at hc
            exact x.not_absorbs_of_isBlank (hhead c hc)
        | some d =>
            rw [hfirst, Option.some_or, Option.some.injEq] at hc
            exact hstop c (by rw [hfirst, hc])

end Layout

/-! ## Cutting a scan at a line feed -/

/-- The token `n` lines further down. -/
def Token.lowered (n : Nat) (t : Token) : Token :=
  ⟨t.toLexeme, ⟨t.position.line + n, t.position.column⟩⟩

/-- At the beginning of a line, a token is carried down only. -/
theorem Token.carriedTo_line (t : Token) (n : Nat) : t.carriedTo ⟨1 + n, 1⟩ = t.lowered n := by
  simp only [carriedTo, lowered, Position.carriedTo, Token.mk.injEq, Position.mk.injEq, true_and]
  constructor
  · omega
  · split <;> omega

/-- **A scan can be cut at a line feed.** The tokens of two texts with a line feed between them are
those of the first without its end of the input, and then those of the second, each as many lines
further down as the first text and the line feed take, and in its own column. -/
theorem scan_append_lineFeed (s t : String) :
    scan (s ++ "\n" ++ t) =
      (scan s).dropLast ++ (scan t).map (Token.lowered (1 + s.toList.count '\n')) := by
  obtain ⟨l, hl, hs⟩ := exists_sound_text s.toList
  obtain ⟨m, hm, ht⟩ := exists_sound_text t.toList
  have hbreak : (m.indent ['\n']).Sound := hm.indent (by decide)
  have hjoined : (l ++ m.indent ['\n']).Sound := by
    refine hl.append hbreak fun c hc => ?_
    rw [Layout.text_indent, List.singleton_append, List.head?_cons, Option.some.injEq] at hc
    subst hc
    decide
  have htext : (l ++ m.indent ['\n']).text = (s ++ "\n" ++ t).toList := by
    rw [Layout.text_append, Layout.text_indent, hs, ht, String.toList_append,
      String.toList_append, List.append_assoc]
    rfl
  -- the second text begins on a line of its own
  have hplace : (Position.start.afterAll s.toList).after '\n' =
      ⟨1 + (1 + s.toList.count '\n' : Nat), 1⟩ := by
    have hbehind : Position.start.afterAll s.toList = Position.behind s.toList :=
      Position.afterAll_behind [] s.toList
    rw [hbehind]
    simp [Position.behind, Position.after]
    omega
  rw [scan_text hjoined htext, scan_text hl hs, scan_text hm ht, Layout.tokensFrom_append,
    Layout.tokensFrom_indent, hs, Position.afterAll_cons, Position.afterAll_nil, hplace,
    m.tokensFrom_eq]
  congr 1
  exact List.map_congr_left fun u _ => u.carriedTo_line _

end DoWhile
