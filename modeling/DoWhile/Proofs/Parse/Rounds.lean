import DoWhile.Proofs.Parse.Ending
import DoWhile.Proofs.Parse.Progress

/-!
# Round by round

The loops of the parser as equations between one feed and the next, on live feeds, where no loop is
cut short. `Parse.row` reads statements with a round for each token behind the feed; any larger
allowance gives the same (`statements_eq_row`), so what is parsed is a row (`statements_parse`,
`errors_parse`), and one statement at a time can be taken off it (`row_of_not_atEnd`). A loop body
is taken apart item by item (`BodyRun.exists_rest`), and a loop goes one of two ways, with its
opening brace and without (`loop_of_opening`, `loop_of_no_opening`).

What a row, a body or a loop ends with is put together from what its parts end with (`row_next`,
`BodyRun.next`, `ends_loop`).
-/

set_option autoImplicit false

namespace DoWhile

/-- The row holds the statements `ss`, raised the diagnostics `ds`, and was read up to the feed
`g`. -/
structure Stretch.Ends (st : Stretch) (ss : List Stmt) (ds : List Diagnostic) (g : Feed) :
    Prop where
  items : st.items = ss
  feed : st.feed = g
  errors : st.notes.errors = ds

namespace Parse

variable {α β : Type} {p : Parse α} {q : α → Parse β} {f g : Feed}

/-! ## Statements -/

/-- A live feed with no token behind it stands on an end token. -/
theorem atEnd_of_following_eq_nil (hf : f.Live) (hnil : f.following = []) : f.atEnd = true := by
  by_contra hend
  exact hf.following_ne_nil (by simpa [Feed.atEnd] using hend) hnil

/-- Two allowances that have a round for each token behind the feed read the same. -/
theorem statements_eq_of_le {m n : Nat} (hf : f.Live) (hm : f.following.length ≤ m)
    (hn : f.following.length ≤ n) : statements m f = statements n f := by
  induction m generalizing f n with
  | zero =>
      have hend := atEnd_of_following_eq_nil hf (List.length_eq_zero_iff.mp (by omega))
      rw [statements_of_atEnd hend, statements_of_atEnd hend]
  | succ m ih =>
      by_cases hend : f.atEnd = true
      · rw [statements_of_atEnd hend, statements_of_atEnd hend]
      have hend' : f.atEnd = false := by simpa using hend
      have hlt := hf.advance_lt hend' (walks_statement f)
      obtain ⟨n, rfl⟩ : ∃ k, n = k + 1 := ⟨n - 1, by omega⟩
      have hlive := ((walks_statement f).live hf).advance
      have hrest : statements m (statement f).feed.advance =
          statements n (statement f).feed.advance :=
        ih hlive (by omega) (by omega)
      rw [statements_succ hend', statements_succ hend', hrest]

/-- Reads statements up to the end of the input, with a round for each token behind the feed. -/
def row (f : Feed) : Stretch := statements f.following.length f

/-- With rounds enough, statements are read as a row. -/
theorem statements_eq_row {rounds : Nat} (hf : f.Live) (hrounds : f.following.length ≤ rounds) :
    statements rounds f = row f := statements_eq_of_le hf hrounds (Nat.le_refl _)

/-- At the end there is nothing to read. -/
theorem row_of_atEnd (hend : f.atEnd = true) : row f = ⟨[], f, Notes.none⟩ :=
  statements_of_atEnd hend

/-- A row that is not at its end is one statement and the row behind it. -/
theorem row_of_not_atEnd (hf : f.Live) (hend : f.atEnd = false) :
    row f = ⟨(statement f).value.toList ++ (row (statement f).feed.advance).items,
      (row (statement f).feed.advance).feed,
      (statement f).notes ++ (row (statement f).feed.advance).notes⟩ := by
  have hlt := hf.advance_lt hend (walks_statement f)
  have hlive := ((walks_statement f).live hf).advance
  rw [← statements_eq_row hf (Nat.le_succ _), statements_succ hend,
    statements_eq_row hlive (Nat.le_of_lt hlt)]

/-- A row ends with its first round, in front of what the row behind that ends with. -/
theorem row_next {v : Option Stmt} {ss : List Stmt} {ds es : List Diagnostic} {h : Feed}
    (hf : f.Live) (hend : f.atEnd = false) (hstatement : statement.Ends f v ds g)
    (hrest : (row g.advance).Ends ss es h) : (row f).Ends (v.toList ++ ss) (ds ++ es) h := by
  obtain ⟨rfl, rfl, rfl⟩ := hstatement
  obtain ⟨rfl, rfl, rfl⟩ := hrest
  rw [row_of_not_atEnd hf hend]
  exact ⟨rfl, rfl, rfl⟩

/-- Reading a row leaves a trail of its notes. -/
theorem trail_row (hf : f.Live) : f.Trail (row f).notes (row f).feed :=
  (statements_spec f.following.length hf (Nat.le_refl _)).2

/-- Reading a row is a walk of the feed. -/
theorem walk_row (hf : f.Live) : f.Walk (row f).notes.errors (row f).feed := (trail_row hf).walk

/-! ## Loop bodies -/

/-- A body that ends at once is empty. -/
theorem BodyRun.eq_of_endsBody {st : Stretch} (h : BodyRun f st) (hends : endsBody f = true) :
    st = ⟨[], f, Notes.none⟩ := by
  cases h with
  | done _ => rfl
  | broken hgoes _ => rw [hends] at hgoes; exact absurd hgoes (by decide)
  | item hgoes _ _ _ => rw [hends] at hgoes; exact absurd hgoes (by decide)
  | stuck hgoes _ _ => rw [hends] at hgoes; exact absurd hgoes (by decide)

/-- A round that breaks off ends the body where its item does. -/
theorem BodyRun.ends_of_breaksOff {st : Stretch} {ds : List Diagnostic} (h : BodyRun f st)
    (hends : endsBody f = false) (hitem : bodyItem.Ends f none ds g)
    (hclosing : g.current.literal = "\x7d") : st.Ends [] ds g := by
  have hbreaks : breaksOff (bodyItem f) = true := by
    rw [breaksOff, hitem.value, hitem.feed, hclosing]
    rfl
  cases h with
  | done hdone => rw [hends] at hdone; exact absurd hdone (by decide)
  | broken _ _ => exact ⟨rfl, hitem.feed, hitem.errors⟩
  | item _ hgoes _ _ => rw [hbreaks] at hgoes; exact absurd hgoes (by decide)
  | stuck _ hgoes _ => rw [hbreaks] at hgoes; exact absurd hgoes (by decide)

/-- What one round of a body is followed by, on a live feed that goes on behind its item. -/
theorem BodyRun.exists_rest {st : Stretch} (h : BodyRun f st) (hf : f.Live)
    (hends : endsBody f = false) (hbreaks : breaksOff (bodyItem f) = false) :
    ∃ rest, BodyRun (bodyItem f).feed.advance rest ∧
      st = ⟨(bodyItem f).value.toList ++ rest.items, rest.feed,
        (bodyItem f).notes ++ rest.notes⟩ := by
  cases h with
  | done hdone => rw [hends] at hdone; exact absurd hdone (by decide)
  | broken _ hbroken => rw [hbreaks] at hbroken; exact absurd hbroken (by decide)
  | @item _ rest _ _ _ hrest => exact ⟨rest, hrest, rfl⟩
  | stuck _ _ hlt =>
      exact absurd (hf.advance_lt (isEnd_of_endsBody hends) (walks_bodyItem f)) hlt

/-- A round that does not break off ends with its item, in front of what the other rounds end
with. -/
theorem BodyRun.next {st : Stretch} {v : Option Stmt} {ss : List Stmt} {ds es : List Diagnostic}
    {h : Feed} (hrun : BodyRun f st) (hf : f.Live) (hends : endsBody f = false)
    (hitem : bodyItem.Ends f v ds g) (hgoes : v = none → g.current.literal ≠ "\x7d")
    (hrest : ∀ rest, BodyRun g.advance rest → rest.Ends ss es h) :
    st.Ends (v.toList ++ ss) (ds ++ es) h := by
  have hbreaks : breaksOff (bodyItem f) = false := by
    rw [breaksOff, hitem.value, hitem.feed]
    cases v with
    | none => simp [hgoes rfl]
    | some s => rfl
  obtain ⟨rest, hrun', rfl⟩ := hrun.exists_rest hf hends hbreaks
  rw [hitem.feed] at hrun'
  obtain ⟨hitems, hfeed, herrors⟩ := hrest rest hrun'
  exact ⟨by rw [hitem.value, hitems], hfeed, by rw [Notes.errors_append, hitem.errors, herrors]⟩

/-- A body that ends in front of a closing brace is closed. -/
theorem ends_closedBody {ss : List Stmt} {ds : List Diagnostic} (hbody : (body f).Ends ss ds g)
    (hclosing : g.current.literal = "\x7d") : closedBody.Ends f (some ss) ds g := by
  obtain ⟨rfl, rfl, rfl⟩ := hbody
  have hitems : items.Ends f (some (body f).items) (body f).notes.errors (body f).feed :=
    ⟨rfl, rfl, rfl⟩
  rw [closedBody_eq]
  refine hitems.bind_yields ?_
  rw [yields_current_bind, if_pos (by rw [hclosing]; rfl)]
  exact yields_pure.mpr ⟨rfl, rfl⟩

/-- A body that ends anywhere else lacks its closing brace. -/
theorem ends_closedBody_of_open (hopen : (body f).feed.current.literal ≠ "\x7d") :
    closedBody.Ends f none ((body f).notes.errors ++
      [⟨.grammar, .expected .closingBrace Lexeme.endOfInput, (body f).feed.current.position⟩])
      (body f).feed := by
  have hitems : items.Ends f (some (body f).items) (body f).notes.errors (body f).feed :=
    ⟨rfl, rfl, rfl⟩
  have hopen : ¬ ((body f).feed.current.literal == "\x7d") = true := by simpa using hopen
  rw [closedBody_eq]
  refine hitems.bind (.current_bind ?_)
  rw [if_neg hopen]
  exact ends_reject (.expected .closingBrace Lexeme.endOfInput) (body f).feed

/-- A row of assignments in front of a closing brace is a closed body. -/
theorem yields_closedBody_of_body {ts : List Token} {ss : List Stmt} (hbody : Grammar.Body ts ss)
    (hf : f.Live) (hpasses : f.Passes ts g) (hclosing : g.current.literal = "\x7d") :
    closedBody.Yields f ss g := by
  have hends : endsBody g = true := by simp [endsBody, hclosing]
  have hclean := (body_clean_iff hf).mpr ⟨ts, hpasses, hbody, hends⟩
  exact yields_closedBody.mpr ⟨hclean, hclosing⟩

/-! ## Loops -/

/-- A feed that moves along a loop from its first token stands behind the opening brace, passes the
body, and moves on from the closing brace along the condition. -/
theorem moves_loop {opening closing word : Token} {ts us : List Token} (hf : f.Live)
    (hopening : opening.isEnd = false)
    (hmoves : f.Moves (opening :: (ts ++ closing :: word :: us)) g) :
    f.peek = opening ∧ f.advance.advance.Live ∧ ∃ h, f.advance.advance.Passes ts h ∧ h.Live ∧
      h.current = closing ∧ h.peek = word ∧ h.advance.current = word ∧ h.advance.Moves us g := by
  obtain ⟨hpeek, -, hlive, hmoves⟩ := hf.of_cons hmoves
  have hne : f.advance.following ≠ [] := by
    apply hf.following_advance_ne_nil
    rw [hpeek, hopening]
  rw [List.append_cons] at hmoves
  obtain ⟨h, hbraces, hmoves⟩ := hmoves.of_append
  obtain ⟨hpasses, hclosing⟩ := (Feed.moves_concat_iff hlive.free hne).mp hbraces
  have hlive' := hlive.of_moves hbraces
  obtain ⟨hpeek', hcurrent', -, hmoves⟩ := hlive'.of_cons hmoves
  exact ⟨hpeek, hlive.advance, h, hpasses, hlive', hclosing, hpeek', hcurrent', hmoves⟩

/-- A loop behind its opening brace. -/
def braced (first : Token) : Parse Stmt :=
  closedBody >>= fun items => expect "while" .whileAfterBody >>= fun _ =>
    condition >>= fun test => pure (.loop items test first.position)

/-- A loop that lacks its opening brace. -/
def bare (first : Token) : Parse Stmt :=
  seekCondition >>= fun _ => condition >>= fun test => pure (.loop [] test first.position)

/-- A loop with its opening brace is read behind the brace. -/
theorem loop_of_opening (hopening : f.peek.isMark "\x7b" = true) :
    loop f = braced f.current f.advance.advance := by
  have hexpect : expect "\x7b" .openingBrace f = advance f := by
    rw [expect, expectThat, if_pos hopening]
  have hsucceeds : (expect "\x7b" .openingBrace).succeeds f =
      ⟨some true, f.advance, Notes.none⟩ := by
    rw [succeeds, hexpect]
    rfl
  rw [loop, current_bind, bind_of_some (a := true) (by rw [hsucceeds]), hsucceeds]
  rfl

/-- A loop without its opening brace is complained of first, and then read without it. -/
theorem loop_of_no_opening (hopening : f.peek.isMark "\x7b" = false) :
    loop f = ⟨(bare f.current f).value, (bare f.current f).feed,
      Notes.one ⟨.grammar, .expected .openingBrace f.peek.toLexeme, f.current.position⟩ ++
        (bare f.current f).notes⟩ := by
  have hexpect : expect "\x7b" .openingBrace f =
      reject (.expected .openingBrace f.peek.toLexeme) f := by
    rw [expect, expectThat, if_neg (by simp [hopening])]
  have hsucceeds : (expect "\x7b" .openingBrace).succeeds f = ⟨some false, f,
      Notes.one ⟨.grammar, .expected .openingBrace f.peek.toLexeme, f.current.position⟩⟩ := by
    rw [succeeds, hexpect]
    rfl
  rw [loop, current_bind, bind_of_some (a := false) (by rw [hsucceeds]), hsucceeds]
  rfl

/-- The search for a condition fails if it runs up to the end. -/
theorem ends_seekCondition_of_isEnd (hend : (f.skipTo "while").current.isEnd = true) :
    seekCondition.Ends f none [] (f.skipTo "while") := by
  have hseek : seekCondition f = ⟨none, f.skipTo "while", Notes.none⟩ := by
    simp [seekCondition, bind_apply, Parse.bind, move, current, fail, hend]
  exact ⟨by rw [hseek], by rw [hseek], by rw [hseek]; rfl⟩

/-- The search for a condition ends on the word in front of it. -/
theorem yields_seekCondition (hend : (f.skipTo "while").current.isEnd = false) :
    seekCondition.Yields f () (f.skipTo "while") := by
  rw [seekCondition, yields_bind]
  refine ⟨(), f.skipTo "while", ⟨rfl, rfl, rfl⟩, ?_⟩
  rw [yields_current_bind, hend]
  exact yields_pure.mpr ⟨rfl, rfl⟩

/-- A loop that lacks its opening brace raises a diagnostic of its own in front of those of its
condition. -/
theorem ends_loop_of_no_opening {v : Option Stmt} {ds : List Diagnostic}
    (hopening : f.peek.isMark "\x7b" = false) (h : (bare f.current).Ends f v ds g) :
    loop.Ends f v (f.current.wants .openingBrace f.peek.toLexeme :: ds) g := by
  rw [← h.value, ← h.feed, ← h.errors]
  have heq := loop_of_no_opening hopening
  exact ⟨by rw [heq], by rw [heq], by rw [heq]; rfl⟩

/-- A loop with its braces ends with what its condition ends with, behind what its body raises. -/
theorem ends_loop {opening closing word : Token} {ts us : List Token} {ss : List Stmt}
    {v : Option Expr} {ds es : List Diagnostic} {k : Feed} (hf : f.Live)
    (hopening : opening.isMark "\x7b" = true) (hword : word.isMark "while" = true)
    (hmoves : f.Moves (opening :: (ts ++ closing :: word :: us)) k)
    (hbody : ∀ h : Feed, f.advance.advance.Live → f.advance.advance.Passes ts h →
      h.current = closing → closedBody.Ends f.advance.advance (some ss) ds h)
    (htest : ∀ h : Feed, h.Live → h.current = word → h.Moves us k → condition.Ends h v es g) :
    loop.Ends f (v.map fun test => .loop ss test f.current.position) (ds ++ es) g := by
  obtain ⟨hpeek, hlive, h, hpasses, hlive', hcurrent, hpeek', hcurrent', hmoves'⟩ :=
    moves_loop hf (Token.isEnd_of_isMark hopening) hmoves
  have hcondition := htest h.advance hlive'.advance hcurrent' hmoves'
  have hbraced : (braced f.current).Ends f.advance.advance
      (v.map fun test => .loop ss test f.current.position) (ds ++ es) g := by
    refine (hbody h hlive hpasses hcurrent).bind (.expect_bind (by rw [hpeek', hword]) ?_)
    cases v with
    | none => exact hcondition.bind_none
    | some test => exact hcondition.bind_yields (yields_pure.mpr ⟨rfl, rfl⟩)
  exact hbraced.congr (loop_of_opening (by rw [hpeek, hopening]))

/-- A loop with its braces and a condition as it has to be gives the items of its body. -/
theorem ends_loop_of_condition {opening closing word : Token} {ts us : List Token}
    {ss : List Stmt} {test : Expr} {ds : List Diagnostic} (hf : f.Live)
    (hopening : opening.isMark "\x7b" = true) (hclosing : closing.literal = "\x7d")
    (hword : word.isMark "while" = true) (htest : Grammar.Condition (word :: us) test)
    (hmoves : f.Moves (opening :: (ts ++ closing :: word :: us)) g)
    (hbody : ∀ h : Feed, f.advance.advance.Live → f.advance.advance.Passes ts h →
      h.current = closing → (body f.advance.advance).Ends ss ds h) :
    loop.Ends f (some (.loop ss test f.current.position)) ds g := by
  have hclosed : ∀ h : Feed, f.advance.advance.Live → f.advance.advance.Passes ts h →
      h.current = closing → closedBody.Ends f.advance.advance (some ss) ds h :=
    fun h hlive hpasses hcurrent =>
      ends_closedBody (hbody h hlive hpasses hcurrent) (by rw [hcurrent, hclosing])
  have hcondition : ∀ h : Feed, h.Live → h.current = word → h.Moves us g →
      condition.Ends h (some test) [] g := by
    rintro h hlive rfl hmoves'
    exact ((yields_condition_iff hlive).mpr ⟨us, hmoves', htest⟩).ends
  have hends := ends_loop hf hopening hword hmoves hclosed hcondition
  rwa [List.append_nil] at hends

end Parse

/-! ## Whole token lists -/

/-- All tokens of a closed list but the first follow at the start. -/
theorem length_following_ofTokens (tokens : List Token) :
    (Feed.ofTokens tokens).following.length + 1 = (closed tokens).length := by
  rw [← Feed.ofTokens_tokens, List.length_cons]

/-- The rounds that are allowed suffice for a row. -/
theorem statements_allowance (tokens : List Token) :
    Parse.statements (Parse.allowance (closed tokens).length) (Feed.ofTokens tokens) =
      Parse.row (Feed.ofTokens tokens) := by
  have hlen := length_following_ofTokens tokens
  exact Parse.statements_eq_row (Feed.live_ofTokens tokens) (by rw [Parse.allowance]; omega)

/-- The statements of a parse are those of the row. -/
theorem statements_parse (tokens : List Token) :
    (parse tokens).program.statements = (Parse.row (Feed.ofTokens tokens)).items := by
  rw [← statements_allowance]
  rfl

/-- The errors of a parse are those of the row. -/
theorem errors_parse (tokens : List Token) :
    (parse tokens).errors = (Parse.row (Feed.ofTokens tokens)).notes.errors := by
  rw [← statements_allowance]
  rfl

/-- Every diagnostic of a parse stands at one of the tokens. -/
theorem exists_token_of_mem_errors {tokens : List Token} {d : Diagnostic}
    (hd : d ∈ (parse tokens).errors) : ∃ t ∈ closed tokens, d.position = t.position := by
  rw [errors_parse] at hd
  obtain ⟨us, hmoves, hplaces⟩ := (Parse.walk_row (Feed.live_ofTokens tokens)).exists_moves
  obtain ⟨-, t, ht, hposition⟩ := hplaces d hd
  refine ⟨t, ?_, hposition⟩
  rw [← Feed.ofTokens_tokens, hmoves.following, ← List.cons_append]
  exact List.mem_append_left _ ht

end DoWhile
