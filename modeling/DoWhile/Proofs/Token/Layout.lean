import DoWhile.Proofs.Token.Spelling

/-!
# Layouts of a text

A layout splits a text into gaps and lexemes: a gap before each lexeme and one at the end. A sound
layout has blank gaps and proper lexemes, and every lexeme runs as far as it can.

`scan_text` says that a scan finds the tokens of every sound layout of its text, and
`exists_sound_text` that every text has one. Together they make the scan exact
(`scan_exact`): the text is lost nowhere, its tokens are as long as they can be, and each of them
carries the place where it stands.

A layout is said to be apart if its gaps are empty only between lexemes that do not fuse. For
blank gaps and proper lexemes this is the same as being maximal (`maximal_iff_apart`), and it is
how a text is put together from given lexemes.
-/

set_option autoImplicit false

namespace DoWhile

/-- A text in parts: gaps and the lexemes between them. -/
inductive Layout where
  | last (gap : List Char)
  | next (gap : List Char) (lexeme : Lexeme) (more : Layout)
  deriving Repr, Inhabited

namespace Layout

/-! ## What a layout consists of -/

/-- The text of a layout: gaps and lexemes in order. -/
def text : Layout → List Char
  | last gap => gap
  | next gap x more => gap ++ (x.literal.toList ++ more.text)

/-- The lexemes in order. -/
def lexemes : Layout → List Lexeme
  | last _ => []
  | next _ x more => x :: more.lexemes

/-- Are all gaps blank? -/
def gapsBlank : Layout → Bool
  | last gap => gap.all isBlank
  | next gap _ more => gap.all isBlank && more.gapsBlank

/-- Does every lexeme run as far as it can: would the character behind it not belong to it? -/
def Maximal : Layout → Prop
  | last _ => True
  | next _ x more => (∀ c, more.text.head? = some c → x.absorbs c = false) ∧ more.Maximal

/-- Is no gap empty where the lexemes on its two sides would fuse? -/
def Apart : Layout → Prop
  | last _ => True
  | next _ _ (last _) => True
  | next _ x (next gap y more) => (x.fuses y = true → gap ≠ []) ∧ (next gap y more).Apart

/-- Whether all lexemes are apart can be decided from front to back. -/
def decideApart : (l : Layout) → Decidable l.Apart
  | last _ => .isTrue trivial
  | next _ _ (last _) => .isTrue trivial
  | next _ x (next gap y more) =>
    have := decideApart (next gap y more)
    inferInstanceAs (Decidable ((x.fuses y = true → gap ≠ []) ∧ (next gap y more).Apart))

/-- It is decidable whether the lexemes of a layout are apart. -/
instance (l : Layout) : Decidable l.Apart := decideApart l

/-- A layout as a scan would make it. -/
structure Sound (l : Layout) : Prop where
  gaps : l.gapsBlank = true
  proper : ∀ x ∈ l.lexemes, x.isProper = true
  maximal : l.Maximal

/-- The tokens of a layout whose text begins at `p`, with the end of the input behind it. -/
def tokensFrom : Layout → Position → List Token
  | last gap, p => [Token.endAt (p.afterAll gap)]
  | next gap x more, p =>
    ⟨x, p.afterAll gap⟩ :: more.tokensFrom ((p.afterAll gap).afterAll x.literal.toList)

/-- The parts of the text in front of each lexeme and in front of the end, where the text `before`
stands in front of the layout. -/
def fronts : Layout → List Char → List (List Char)
  | last gap, before => [before ++ gap]
  | next gap x more, before => (before ++ gap) :: more.fronts (before ++ gap ++ x.literal.toList)

end Layout

/-- The place right behind a text that stands at the beginning: one line further for each line feed
in it, and one column further for each character behind the last of them. -/
def Position.behind (before : List Char) : Position :=
  ⟨1 + before.count '\n', 1 + (before.reverse.takeWhile (· != '\n')).length⟩

/-- The place behind a text moves past each further character. -/
theorem Position.behind_concat (before : List Char) (c : Char) :
    behind (before ++ [c]) = (behind before).after c := by
  by_cases hc : c = '\n'
  · simp [behind, after, hc]
    omega
  · simp [behind, after, hc]
    omega

/-- Reading a text moves a position from behind what came first to behind all of it. -/
theorem Position.afterAll_behind (before cs : List Char) :
    (behind before).afterAll cs = behind (before ++ cs) := by
  induction cs generalizing before with
  | nil => simp
  | cons c cs ih =>
      rw [afterAll_cons, ← behind_concat, ih, List.append_assoc, List.singleton_append]

namespace Layout

/-! ## The tokens of a layout -/

/-- Each token stands right behind the part of the text in front of it. -/
theorem tokensFrom_positions (l : Layout) (before : List Char) :
    (l.tokensFrom (Position.behind before)).map (·.position) =
      (l.fronts before).map Position.behind := by
  induction l generalizing before with
  | last gap => simp [tokensFrom, fronts, Token.endAt, Position.afterAll_behind]
  | next gap x more ih =>
      rw [tokensFrom, fronts, List.map_cons, List.map_cons, Position.afterAll_behind,
        Position.afterAll_behind, ih]

/-! ## Gaps and lexemes -/

/-- What is said of a sound layout is said of its first lexeme and of the rest. -/
theorem Sound.of_next {gap : List Char} {x : Lexeme} {more : Layout}
    (h : (next gap x more).Sound) :
    gap.all isBlank = true ∧ x.isProper = true ∧
      (∀ c, more.text.head? = some c → x.absorbs c = false) ∧ more.Sound := by
  obtain ⟨hgaps, hproper, hmax⟩ := h
  rw [gapsBlank, Bool.and_eq_true] at hgaps
  rw [lexemes, List.forall_mem_cons] at hproper
  exact ⟨hgaps.1, hproper.1, hmax.1, hgaps.2, hproper.2, hmax.2⟩

/-- Between blank gaps, proper lexemes run as far as they can exactly if they are apart. -/
theorem maximal_iff_apart (l : Layout) (hgaps : l.gapsBlank = true)
    (hproper : ∀ x ∈ l.lexemes, x.isProper = true) : l.Maximal ↔ l.Apart := by
  induction l with
  | last gap => simp [Maximal, Apart]
  | next gap x more ih =>
      rw [gapsBlank, Bool.and_eq_true] at hgaps
      rw [lexemes, List.forall_mem_cons] at hproper
      have hmore := ih hgaps.2 hproper.2
      rw [Maximal, hmore]
      cases more with
      | last gap' =>
          simp only [Apart, and_true, iff_true]
          intro c hc
          have hmem : c ∈ gap' := List.mem_of_mem_head? hc
          exact x.not_absorbs_of_isBlank (List.all_eq_true.mp hgaps.2 c hmem)
      | next gap' y rest =>
          -- behind `x` stands the first blank of the gap, or the first character of `y`
          rw [Apart]
          refine and_congr_left fun _ => ?_
          rw [lexemes, List.forall_mem_cons] at hproper
          rw [gapsBlank, Bool.and_eq_true] at hgaps
          obtain ⟨d, ds, hds, -⟩ := Lexeme.leads_of_isProper hproper.2.1
          rw [Lexeme.fuses_eq_absorbs hproper.2.1 hds, text, hds]
          cases gap' with
          | nil => simp
          | cons b bs =>
              have hb : isBlank b = true := List.all_eq_true.mp hgaps.2.1 b (by simp)
              simp [x.not_absorbs_of_isBlank hb]

end Layout

/-! ## Scanning a layout -/

namespace Cursor

/-- Skipping blanks moves past all of them, up to something that is no blank. -/
theorem skipBlanks_eq (c : Cursor) {gap rest : List Char} (hrest : c.rest = gap ++ rest)
    (hgap : gap.all isBlank = true) (hstop : ∀ d, rest.head? = some d → isBlank d = false) :
    c.skipBlanks = c.past gap rest := by
  obtain ⟨htake, hdrop⟩ := takeWhile_append_of_stop hgap hstop
  rw [skipBlanks, hrest, htake, hdrop]

/-- If only blanks are left, the next token is the end of the input. -/
theorem next_of_skipBlanks_nil {c : Cursor} (h : c.skipBlanks.rest = []) :
    c.next = ⟨Token.endAt c.skipBlanks.position, c.skipBlanks, []⟩ := by
  simp only [next, h]

/-- If more than blanks is left, the next token is the longest lexeme behind them. -/
theorem next_of_skipBlanks_cons {c : Cursor} {ch : Char} {rest : List Char}
    (h : c.skipBlanks.rest = ch :: rest) :
    c.next.token = ⟨(Lexeme.longest ch rest).1, c.skipBlanks.position⟩ ∧
      c.next.cursor = c.skipBlanks.past (Lexeme.longest ch rest).1.literal.toList
        (Lexeme.longest ch rest).2 := by
  simp only [next, h, and_self]

/-- Reading ends with an end token. -/
theorem readAll_of_end {c : Cursor} (h : c.next.token.isEnd = true) :
    c.readAll = ⟨[c.next.token], c.next.cursor, c.next.log⟩ := by
  rw [readAll]
  simp only [h, dif_pos]

/-- Reading goes on behind a token that is not the end. -/
theorem readAll_of_not_end {c : Cursor} (h : c.next.token.isEnd = false) :
    c.readAll = ⟨c.next.token :: c.next.cursor.readAll.tokens, c.next.cursor.readAll.cursor,
      c.next.log ++ c.next.cursor.readAll.log⟩ := by
  rw [readAll]
  simp only [h, Bool.false_eq_true, dif_neg, not_false_eq_true]

/-- If only blanks are left, reading a token reads all of them. -/
theorem next_of_blank (c : Cursor) (hrest : c.rest.all isBlank = true) :
    c.next = ⟨Token.endAt (c.position.afterAll c.rest), c.past c.rest [], []⟩ := by
  have hskip := skipBlanks_eq c (List.append_nil c.rest).symm hrest (by simp)
  rw [next_of_skipBlanks_nil (by rw [hskip]; rfl), hskip]
  rfl

/-- A reading gives the proper lexeme that stands behind the blanks, if the lexeme ends there. -/
theorem next_of_proper (c : Cursor) {gap rest : List Char} {x : Lexeme}
    (hrest : c.rest = gap ++ (x.literal.toList ++ rest)) (hgap : gap.all isBlank = true)
    (hx : x.isProper = true) (hstop : ∀ d, rest.head? = some d → x.absorbs d = false) :
    c.next.token = ⟨x, c.position.afterAll gap⟩ ∧
      c.next.cursor = (c.past gap (x.literal.toList ++ rest)).past x.literal.toList rest := by
  obtain ⟨d, ds, hds, hd⟩ := Lexeme.leads_of_isProper hx
  have hblank : isBlank d = false := Lexeme.not_isBlank_of_leads hd
  have hskip := skipBlanks_eq c hrest hgap (by simp [hds, hblank])
  have hlong := Lexeme.longest_eq hx hds hstop
  have hcons : c.skipBlanks.rest = d :: (ds ++ rest) := by
    rw [hskip, hds]
    rfl
  obtain ⟨htoken, hcursor⟩ := next_of_skipBlanks_cons hcons
  rw [htoken, hcursor, hlong, hskip]
  exact ⟨rfl, rfl⟩

/-- A scan finds the tokens of every sound layout of the text in front of it. -/
theorem readAll_tokens (l : Layout) (hl : l.Sound) (c : Cursor) (hrest : c.rest = l.text) :
    c.readAll.tokens = l.tokensFrom c.position := by
  induction l generalizing c with
  | last gap =>
      rw [Layout.text] at hrest
      have hgap : gap.all isBlank = true := hl.gaps
      have hnext := next_of_blank c (by rw [hrest]; exact hgap)
      have hend : c.next.token.isEnd = true := by rw [hnext]; rfl
      rw [readAll_of_end hend, hnext, hrest]
      rfl
  | next gap x more ih =>
      rw [Layout.text] at hrest
      obtain ⟨hgap, hx, hstop, hmore⟩ := hl.of_next
      obtain ⟨htoken, hcursor⟩ := next_of_proper c hrest hgap hx hstop
      have hend : c.next.token.isEnd = false := by
        rw [htoken]
        exact Token.isEnd_of_isProper hx
      rw [readAll_of_not_end hend]
      dsimp only
      rw [ih hmore c.next.cursor (by rw [hcursor]; rfl), htoken, hcursor]
      rfl

end Cursor

/-- A text is scanned into the tokens of any of its sound layouts. -/
theorem scan_text {l : Layout} {source : String} (hl : l.Sound) (htext : l.text = source.toList) :
    scan source = l.tokensFrom Position.start :=
  Cursor.readAll_tokens l hl (Cursor.start source) htext.symm

/-- Every text has a sound layout. -/
theorem exists_sound_text (cs : List Char) : ∃ l : Layout, l.Sound ∧ l.text = cs := by
  -- on the length of the text: one reading leaves less of it than there was
  induction hn : cs.length using Nat.strong_induction_on generalizing cs with
  | _ n ih =>
    have hsplit : cs = cs.takeWhile isBlank ++ cs.dropWhile isBlank :=
      List.takeWhile_append_dropWhile.symm
    cases hrest : cs.dropWhile isBlank with
    | nil =>
        refine ⟨.last cs, ⟨?_, by simp [Layout.lexemes], trivial⟩, rfl⟩
        rw [hrest, List.append_nil] at hsplit
        rw [Layout.gapsBlank, hsplit, List.all_takeWhile]
    | cons c rest =>
        have hc : isBlank c = false := not_head_dropWhile isBlank cs c (by rw [hrest]; rfl)
        have hlong := Lexeme.length_longest_le c rest
        have hlen : (c :: rest).length ≤ cs.length := by
          rw [← hrest]
          exact (List.dropWhile_suffix _).length_le
        rw [List.length_cons] at hlen
        obtain ⟨more, ⟨hgaps, hproper, hmax⟩, htext⟩ :=
          ih (Lexeme.longest c rest).2.length (by omega) _ rfl
        refine ⟨.next (cs.takeWhile isBlank) (Lexeme.longest c rest).1 more, ⟨?_, ?_, ?_⟩, ?_⟩
        · rw [Layout.gapsBlank, List.all_takeWhile, hgaps, Bool.and_self]
        · rw [Layout.lexemes, List.forall_mem_cons]
          exact ⟨Lexeme.isProper_longest c rest hc, hproper⟩
        · rw [Layout.Maximal, htext]
          exact ⟨Lexeme.not_absorbs_longest c rest, hmax⟩
        · rw [Layout.text, htext, Lexeme.longest_append, ← hrest]
          exact List.takeWhile_append_dropWhile

/-- The kind of a proper lexeme is the one that admits its text. -/
theorem Lexeme.kind_eq_iff_admits {x : Lexeme} (hx : x.isProper = true) (k : Token.Kind) :
    x.kind = k ↔ k.admits x.literal = true := by
  have hadmits := admits_of_isProper hx
  constructor
  · rintro rfl
    exact hadmits
  · intro hk
    exact Token.Kind.eq_of_admits hadmits hk

/-- The tokens of a layout are those of its lexemes and one end of the input behind them. -/
theorem Layout.exists_tokensFrom_eq (l : Layout) (p : Position) :
    ∃ ts q, l.tokensFrom p = ts ++ [Token.endAt q] ∧ ts.map (·.toLexeme) = l.lexemes := by
  induction l generalizing p with
  | last gap => exact ⟨[], p.afterAll gap, rfl, rfl⟩
  | next gap x more ih =>
      obtain ⟨ts, q, hts, hlexemes⟩ := ih ((p.afterAll gap).afterAll x.literal.toList)
      refine ⟨⟨x, p.afterAll gap⟩ :: ts, q, ?_, ?_⟩
      · rw [tokensFrom, hts, List.cons_append]
      · rw [List.map_cons, hlexemes, lexemes]

/-- A scan gives proper tokens with the lexemes of any sound layout, and then the end. -/
theorem scan_eq {l : Layout} {source : String} (hl : l.Sound) (htext : l.text = source.toList) :
    ∃ ts q, scan source = ts ++ [Token.endAt q] ∧ ts.map (·.toLexeme) = l.lexemes ∧
      ∀ t ∈ ts, t.isProper = true := by
  obtain ⟨ts, q, hts, hlexemes⟩ := l.exists_tokensFrom_eq Position.start
  refine ⟨ts, q, by rw [scan_text hl htext, hts], hlexemes, ?_⟩
  intro t ht
  apply hl.proper
  rw [← hlexemes]
  exact List.mem_map_of_mem ht

/-- Any scan gives proper tokens and then the end. -/
theorem exists_scan_eq (source : String) :
    ∃ ts q, scan source = ts ++ [Token.endAt q] ∧ ∀ t ∈ ts, t.isProper = true := by
  obtain ⟨l, hl, htext⟩ := exists_sound_text source.toList
  obtain ⟨ts, q, hts, -, hproper⟩ := scan_eq hl htext
  exact ⟨ts, q, hts, hproper⟩

/-- A scan gives the lexemes of any sound layout of its text, and then the end of the input. -/
theorem scan_lexemes {l : Layout} {source : String} (hl : l.Sound)
    (htext : l.text = source.toList) :
    (scan source).map (·.toLexeme) = l.lexemes ++ [Lexeme.endOfInput] := by
  obtain ⟨ts, q, hts, hlexemes, -⟩ := scan_eq hl htext
  rw [hts, List.map_append, hlexemes]
  rfl

/-- **A scan is exact.** Its tokens end in the one end of the input; their texts and the blanks
between them make up the source; each token has the one kind that admits its text, runs as far as
it can, and stands at the place behind the part of the source in front of it. -/
theorem scan_exact (source : String) :
    ∃ (l : Layout) (ts : List Token) (q : Position),
      scan source = ts ++ [Token.endAt q] ∧ (∀ t ∈ ts, t.isEnd = false) ∧
      l.gapsBlank = true ∧ l.text = source.toList ∧ ts.map (·.toLexeme) = l.lexemes ∧
      (∀ t ∈ ts, ∀ k : Token.Kind, t.kind = k ↔ k.admits t.literal = true) ∧
      l.Maximal ∧
      (scan source).map (·.position) = (l.fronts []).map Position.behind := by
  obtain ⟨l, hl, htext⟩ := exists_sound_text source.toList
  obtain ⟨ts, q, hts, hlexemes, hproper⟩ := scan_eq hl htext
  refine ⟨l, ts, q, hts, ?_, hl.gaps, htext, hlexemes, ?_, hl.maximal, ?_⟩
  · intro t ht
    exact Token.isEnd_of_isProper (hproper t ht)
  · intro t ht k
    exact Lexeme.kind_eq_iff_admits (hproper t ht) k
  · rw [scan_text hl htext]
    exact l.tokensFrom_positions []

end DoWhile
