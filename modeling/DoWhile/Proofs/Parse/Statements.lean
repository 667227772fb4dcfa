import DoWhile.Proofs.Parse.Derivation
import DoWhile.Proofs.Parse.Settled

/-!
# Rows of statements

What the loops of the parser read without a diagnostic. `BodyRun` says once what one round of a
loop body can do (`bodyRun_body`); from it, a body is quiet exactly on the tokens of a row of
assignments (`body_clean_iff`). A loop, a statement and the whole row of statements follow
(`yields_loop_iff`, `yields_statement_iff`, `statements_sound`, `statements_complete`).
-/

set_option autoImplicit false

namespace DoWhile

/-- The row holds the statements `ss`, was read up to the feed `g`, and raised no diagnostic. -/
structure Stretch.Clean (st : Stretch) (ss : List Stmt) (g : Feed) : Prop where
  items : st.items = ss
  feed : st.feed = g
  quiet : st.notes.errors = []

namespace Parse

variable {f g : Feed}

/-! ## The last token of a statement -/

/-- An assignment does not end in an end token. -/
theorem isEnd_last_of_assignment {t : Token} {us : List Token} {s : Stmt}
    (h : Grammar.Assignment (t :: us) s) : (us.getLastD t).isEnd = false := by
  cases h with
  | @mk _ equals semicolon ts value _ _ hsemicolon =>
      rw [← List.cons_append, getLastD_append_cons, List.getLastD_nil]
      exact Token.isEnd_of_isMark hsemicolon

/-- A declaration does not end in an end token. -/
theorem isEnd_last_of_declaration {t : Token} {us : List Token} {s : Stmt}
    (h : Grammar.Declaration (t :: us) s) : (us.getLastD t).isEnd = false := by
  cases h with
  | @mk _ name equals semicolon ts value _ _ _ hsemicolon =>
      rw [← List.cons_append, ← List.cons_append, getLastD_append_cons, List.getLastD_nil]
      exact Token.isEnd_of_isMark hsemicolon

/-- A condition does not end in an end token. -/
theorem isEnd_last_of_condition {t : Token} {us : List Token} {e : Expr}
    (h : Grammar.Condition (t :: us) e) : (us.getLastD t).isEnd = false := by
  cases h with
  | @mk _ opening closing semicolon ts _ _ _ _ hsemicolon =>
      rw [← List.cons_append, getLastD_append_cons, List.getLastD_cons, List.getLastD_nil]
      exact Token.isEnd_of_isMark hsemicolon

/-- A loop does not end in an end token. -/
theorem isEnd_last_of_loop {t : Token} {us : List Token} {s : Stmt}
    (h : Grammar.Loop (t :: us) s) : (us.getLastD t).isEnd = false := by
  cases h with
  | @mk _ opening closing word ts us body test _ _ _ _ htest =>
      rw [← List.cons_append, getLastD_append_cons, List.getLastD_cons]
      exact isEnd_last_of_condition htest

/-- A statement does not end in an end token. -/
theorem isEnd_last_of_statement {t : Token} {us : List Token} {s : Stmt}
    (h : Grammar.Statement (t :: us) s) : (us.getLastD t).isEnd = false := by
  cases h with
  | declaration _ hs => exact isEnd_last_of_declaration hs
  | loop _ hs => exact isEnd_last_of_loop hs
  | assignment _ _ _ hs => exact isEnd_last_of_assignment hs

/-- Behind a token that is no end token a live feed goes on. -/
theorem following_ne_nil_of_moves {us : List Token} (hf : f.Live) (hfg : f.Moves us g)
    (hlast : (us.getLastD f.current).isEnd = false) : g.following ≠ [] :=
  (hf.of_moves hfg).following_ne_nil (by rw [hfg.current, hlast])

/-- An assignment starts with an identifier and the equals sign behind it. -/
theorem startsAssignment_iff : startsAssignment f = true ↔
    f.current.kind = .identifier ∧ f.peek.isMark "=" = true := by
  simp [startsAssignment, Feed.peekIs]

/-! ## Loop bodies -/

/-- An item of a loop body is read exactly if an assignment is derived from an identifier on. -/
theorem yields_bodyItem_iff (hf : f.Live) {s : Stmt} :
    bodyItem.Yields f s g ↔ f.current.kind = .identifier ∧
      ∃ us, f.Moves us g ∧ Grammar.Assignment (f.current :: us) s := by
  by_cases hstarts : startsAssignment f = true
  · rw [yields_congr (show bodyItem f = assignment f by rw [bodyItem, if_pos hstarts]),
      yields_assignment_iff hf]
    simp [(startsAssignment_iff.mp hstarts).1]
  · rw [yields_congr (show bodyItem f = (reject (.expected .bodyAssignment f.current.toLexeme)
      : Parse Stmt) f by rw [bodyItem, if_neg hstarts])]
    simp only [not_yields_reject, false_iff]
    rintro ⟨hkind, us, hmoves, hspells⟩
    cases hspells with
    | mk hequals hvalue hsemicolon =>
        obtain ⟨hpeek, -, -, -⟩ := hf.of_cons hmoves
        exact hstarts (startsAssignment_iff.mpr ⟨hkind, by rw [hpeek, hequals]⟩)

/-- Does a loop body end in front of the feed? -/
def endsBody (f : Feed) : Bool := f.atEnd || f.current.literal == "\x7d"

/-- Did an item fail on a closing brace? -/
def breaksOff (item : Outcome Stmt) : Bool :=
  item.value.isNone && item.feed.current.literal == "\x7d"

/-- How a loop body is read, round by round: it ends in front of the feed, it breaks off at an item,
it goes on behind its item, or it has an item and cannot move on. -/
inductive BodyRun : Feed → Stretch → Prop
  | done {f : Feed} (hends : endsBody f = true) : BodyRun f ⟨[], f, Notes.none⟩
  | broken {f : Feed} (hends : endsBody f = false) (hbreaks : breaksOff (bodyItem f) = true) :
      BodyRun f ⟨[], (bodyItem f).feed, (bodyItem f).notes⟩
  | item {f : Feed} {rest : Stretch} (hends : endsBody f = false)
      (hbreaks : breaksOff (bodyItem f) = false)
      (hlt : (bodyItem f).feed.advance.following.length < f.following.length)
      (hrest : BodyRun (bodyItem f).feed.advance rest) :
      BodyRun f ⟨(bodyItem f).value.toList ++ rest.items, rest.feed,
        (bodyItem f).notes ++ rest.notes⟩
  | stuck {f : Feed} (hends : endsBody f = false) (hbreaks : breaksOff (bodyItem f) = false)
      (hlt : ¬ (bodyItem f).feed.advance.following.length < f.following.length) :
      BodyRun f ⟨(bodyItem f).value.toList, (bodyItem f).feed.advance, (bodyItem f).notes⟩

/-- A loop body is read in rounds. -/
theorem bodyRun_body (f : Feed) : BodyRun f (body f) := by
  -- a round that goes on leaves fewer tokens behind the feed
  induction hn : f.following.length using Nat.strongRecOn generalizing f with
  | ind n ih =>
    rw [body]
    by_cases hends : endsBody f = true
    · rw [endsBody] at hends
      rw [if_pos hends]
      exact .done hends
    have hends' : endsBody f = false := by simpa using hends
    rw [endsBody] at hends
    rw [if_neg hends]
    dsimp only
    by_cases hbreaks : breaksOff (bodyItem f) = true
    · rw [breaksOff] at hbreaks
      rw [if_pos hbreaks]
      exact .broken hends' hbreaks
    have hbreaks' : breaksOff (bodyItem f) = false := by simpa using hbreaks
    rw [breaksOff] at hbreaks
    rw [if_neg hbreaks]
    by_cases hlt : (bodyItem f).feed.advance.following.length < f.following.length
    · rw [dif_pos hlt]
      exact .item hends' hbreaks' hlt (ih _ (by omega) _ rfl)
    · rw [dif_neg hlt]
      exact .stuck hends' hbreaks' hlt

/-- A body that is read without a diagnostic is a row of assignments. -/
theorem BodyRun.sound {st : Stretch} (h : BodyRun f st) (hf : f.Live)
    (hquiet : st.notes.errors = []) :
    ∃ ts, f.Passes ts st.feed ∧ Grammar.Body ts st.items ∧ endsBody st.feed = true := by
  induction h with
  | @done f hends => exact ⟨[], Feed.Passes.refl f, .nil, hends⟩
  | @broken f hends hbreaks =>
      -- an item without a diagnostic has a value, so the row did not break off at it
      obtain ⟨s, g, hs⟩ := (settled_bodyItem f).yields hquiet
      rw [breaksOff, hs.value] at hbreaks
      exact absurd hbreaks (by simp)
  | @item f rest hends hbreaks hlt hrest ih =>
      rw [Notes.errors_append, List.append_eq_nil_iff] at hquiet
      obtain ⟨s, g, hs⟩ := (settled_bodyItem f).yields hquiet.1
      obtain ⟨hkind, us, hmoves, hspells⟩ := (yields_bodyItem_iff hf).mp hs
      have hne := following_ne_nil_of_moves hf hmoves (isEnd_last_of_assignment hspells)
      have hg := hf.of_moves hmoves
      rw [hs.feed] at ih
      obtain ⟨ts, hpasses, hbody, hstop⟩ := ih hg.advance hquiet.2
      refine ⟨f.current :: us ++ ts, (hmoves.passes hg.free hne).trans hpasses, ?_, hstop⟩
      rw [hs.value]
      refine .cons hkind ?_ hspells hbody
      rintro hbrace
      simp [endsBody, hbrace] at hends
  | @stuck f hends hbreaks hlt =>
      -- an assignment does not end in the end token, so the feed could move on behind it
      obtain ⟨s, g, hs⟩ := (settled_bodyItem f).yields hquiet
      obtain ⟨-, us, hmoves, hspells⟩ := (yields_bodyItem_iff hf).mp hs
      have hne := following_ne_nil_of_moves hf hmoves (isEnd_last_of_assignment hspells)
      have hlen := congrArg List.length hmoves.following
      rw [Feed.current_cons_following_advance (hf.of_moves hmoves).free hne] at hlen
      rw [hs.feed] at hlt
      simp only [List.length_append, List.length_cons] at hlen
      omega

/-- The tokens of a row of assignments in front of the end of a body are read without a
diagnostic, and as that row. -/
theorem BodyRun.complete {ts : List Token} {ss : List Stmt} {st : Stretch}
    (hbody : Grammar.Body ts ss) (h : BodyRun f st) (hf : f.Live) (hpasses : f.Passes ts g)
    (hg : endsBody g = true) : st.Clean ss g := by
  induction hbody generalizing f st with
  | nil =>
      obtain rfl := hpasses.eq_of_nil
      cases h with
      | done _ => exact ⟨rfl, rfl, rfl⟩
      | broken hends _ => rw [hg] at hends; exact absurd hends (by decide)
      | item hends _ _ _ => rw [hg] at hends; exact absurd hends (by decide)
      | stuck hends _ _ => rw [hg] at hends; exact absurd hends (by decide)
  | @cons first us ts s ss hkind hopen hs hss ih =>
      rw [← List.cons_append] at hpasses
      obtain ⟨hfirst, g', hmoves, hne, hpasses'⟩ := Feed.Passes.moves_of_append hf.free hpasses
      have hitem : bodyItem.Yields f s g' := by
        rw [yields_bodyItem_iff hf, hfirst]
        exact ⟨hkind, us, hmoves, hs⟩
      have hlive := hf.of_moves hmoves
      cases h with
      | done hends =>
          simp [endsBody, Feed.atEnd, hfirst, Token.isEnd_of_kind hkind, hopen] at hends
      | broken _ hbreaks =>
          rw [breaksOff, hitem.value] at hbreaks
          exact absurd hbreaks (by simp)
      | item _ _ _ hrest =>
          rw [hitem.feed] at hrest
          obtain ⟨hitems, hfeed, hquiet⟩ := ih hrest hlive.advance hpasses'
          refine ⟨?_, hfeed, ?_⟩
          · rw [hitem.value, hitems]
            rfl
          · rw [Notes.errors_append, hitem.quiet, hquiet, List.append_nil]
      | stuck _ _ hlt =>
          have hlen := congrArg List.length hmoves.following
          rw [Feed.current_cons_following_advance hlive.free hne] at hlen
          rw [hitem.feed] at hlt
          simp only [List.length_append, List.length_cons] at hlen
          omega

/-- A loop body is read without a diagnostic exactly on the tokens of a row of assignments. -/
theorem body_clean_iff (hf : f.Live) {ss : List Stmt} :
    (body f).Clean ss g ↔ ∃ ts, f.Passes ts g ∧ Grammar.Body ts ss ∧ endsBody g = true := by
  constructor
  · rintro ⟨rfl, rfl, hquiet⟩
    exact (bodyRun_body f).sound hf hquiet
  · rintro ⟨ts, hpasses, hbody, hends⟩
    exact BodyRun.complete hbody (bodyRun_body f) hf hpasses hends

/-! ## Loops -/

/-- Reading a loop body as a parse of its own, which always gives its items. -/
def items : Parse (List Stmt) := fun f => ⟨some (body f).items, (body f).feed, (body f).notes⟩

/-- Reading a body with its closing brace is reading its items and then looking for the brace. -/
theorem closedBody_eq :
    closedBody = (items >>= fun ss => current >>= fun t =>
      if (t.literal == "\x7d") = true then pure ss
      else reject (.expected .closingBrace Lexeme.endOfInput)) := rfl

/-- Reading the items of a body yields exactly what is read without a diagnostic. -/
theorem yields_items {ss : List Stmt} : items.Yields f ss g ↔ (body f).Clean ss g := by
  constructor
  · rintro ⟨hvalue, hfeed, hquiet⟩
    exact ⟨Option.some.inj hvalue, hfeed, hquiet⟩
  · rintro ⟨rfl, hfeed, hquiet⟩
    exact ⟨rfl, hfeed, hquiet⟩

/-- A body with its closing brace is read exactly if its items are and the brace stands behind
them. -/
theorem yields_closedBody {ss : List Stmt} :
    closedBody.Yields f ss g ↔ (body f).Clean ss g ∧ g.current.literal = "\x7d" := by
  rw [closedBody_eq, yields_bind]
  simp only [yields_items, yields_current_bind]
  constructor
  · rintro ⟨items, g', hclean, h⟩
    by_cases hbrace : g'.current.literal = "\x7d"
    · simp only [hbrace, beq_self_eq_true, if_true, yields_pure] at h
      obtain ⟨rfl, rfl⟩ := h
      exact ⟨hclean, hbrace⟩
    · simp [hbrace] at h
  · rintro ⟨hclean, hbrace⟩
    exact ⟨ss, g, hclean, by simp [hbrace]⟩

/-- Reading a body with its closing brace is loud. -/
theorem loud_closedBody (f : Feed) : closedBody.Loud f := by
  rw [closedBody_eq]
  refine loud_bind (fun hquiet => ⟨_, _, yields_items.mpr ⟨rfl, rfl, hquiet⟩⟩) fun ss g _ => ?_
  refine loud_bind (settled_current g).loud fun t g _ => ?_
  by_cases hbrace : (t.literal == "\x7d") = true
  · exact loud_congr (by rw [if_pos hbrace]) (settled_pure ss g).loud
  · exact loud_congr (by rw [if_neg hbrace]) (settled_reject _ g).loud

/-- Reading a loop yields exactly if one is derived from the current token on. -/
theorem yields_loop_iff (hf : f.Live) {s : Stmt} :
    loop.Yields f s g ↔ ∃ us, f.Moves us g ∧ Grammar.Loop (f.current :: us) s := by
  unfold loop
  rw [yields_current_bind, yields_bind]
  simp only [yields_succeeds (settled_expect _ _ f), yields_expect]
  constructor
  · rintro ⟨b, f', ⟨rfl, -, hopening, rfl⟩, h⟩
    simp only [if_true, yields_advance_bind, yields_bind (p := closedBody), yields_closedBody,
      yields_expect_bind, yields_bind (p := condition), yields_pure] at h
    obtain ⟨items, g', ⟨hclean, hclosing⟩, hword, test, g'', htest, rfl, rfl⟩ := h
    have hopen := hf.moves_advance (Token.isEnd_of_isMark hopening)
    have hlive := hf.advance
    have hne := hf.following_advance_ne_nil (Token.isEnd_of_isMark hopening)
    obtain ⟨ts, hpasses, hbody, -⟩ := (body_clean_iff hlive.advance).mp hclean
    have hmoves := (Feed.moves_concat_iff hlive.free hne).mpr ⟨hpasses, rfl⟩
    have hlive' := hlive.of_moves hmoves
    have hmove := hlive'.moves_advance (Token.isEnd_of_isMark hword)
    obtain ⟨us, hmoves', hspells⟩ := (yields_condition_iff hlive'.advance).mp htest
    have hall := hopen.trans (hmoves.trans (hmove.trans hmoves'))
    simp only [List.append_assoc, List.singleton_append] at hall
    refine ⟨_, hall, ?_⟩
    rw [Feed.current_advance hlive'.free] at hspells
    exact .mk hopening hbody hclosing hword hspells
  · rintro ⟨us, hmoves, hspells⟩
    cases hspells with
    | @mk _ opening closing word ts us body test hopening hbody hclosing hword htest =>
        obtain ⟨hpeek, -, hlive, hmoves⟩ := hf.of_cons hmoves
        have hne : f.advance.following ≠ [] := by
          apply hf.following_advance_ne_nil
          rw [hpeek, Token.isEnd_of_isMark hopening]
        rw [List.append_cons] at hmoves
        obtain ⟨g', hbraces, hmoves⟩ := hmoves.of_append
        obtain ⟨hpasses, hclose⟩ := (Feed.moves_concat_iff hlive.free hne).mp hbraces
        have hlive' := hlive.of_moves hbraces
        obtain ⟨hpeek', hcurrent', hlive'', hmoves⟩ := hlive'.of_cons hmoves
        have hends : endsBody g' = true := by simp [endsBody, hclose, hclosing]
        have hclean := (body_clean_iff hlive.advance).mpr ⟨ts, hpasses, hbody, hends⟩
        have hcondition : condition.Yields g'.advance test g := by
          rw [yields_condition_iff hlive'', hcurrent']
          exact ⟨us, hmoves, htest⟩
        refine ⟨true, f.advance, ⟨rfl, (), by rw [hpeek]; exact hopening, rfl⟩, ?_⟩
        simp only [if_true, yields_advance_bind, yields_bind (p := closedBody), yields_closedBody,
          yields_expect_bind, yields_bind (p := condition), yields_pure]
        refine ⟨body, g', ⟨hclean, by rw [hclose]; exact hclosing⟩, by rw [hpeek']; exact hword,
          test, g, hcondition, rfl, rfl⟩

/-- Reading a loop is loud. -/
theorem loud_loop (f : Feed) : loop.Loud f := by
  unfold loop
  refine loud_bind (settled_current f).loud fun first g _ => ?_
  refine loud_bind (loud_succeeds (settled_expect _ _ g)) fun b g' hb => ?_
  obtain ⟨rfl, -⟩ := (yields_succeeds (settled_expect _ _ g)).mp hb
  refine loud_bind (settled_advance g').loud fun _ g _ => ?_
  refine loud_bind (loud_closedBody g) fun items g _ => ?_
  refine loud_bind (settled_expect _ _ g).loud fun _ g _ => ?_
  exact loud_bind (settled_condition g).loud fun test g _ => (settled_pure _ g).loud

/-! ## Statements -/

/-- A statement that begins with `int` is read as a declaration. -/
theorem statement_of_int (hint : f.current.literal = "int") : statement f = declaration f := by
  simp [statement, hint]

/-- A statement that begins with `do` is read as a loop. -/
theorem statement_of_do (hdo : f.current.literal = "do") : statement f = loop f := by
  simp [statement, hdo]

/-- A statement that begins with an identifier and a sign of assignment is read as an assignment. -/
theorem statement_of_assignment (hint : f.current.literal ≠ "int")
    (hdo : f.current.literal ≠ "do") (hstarts : startsAssignment f = true) :
    statement f = assignment f := by
  simp [statement, hint, hdo, hstarts]

/-- Any other token is rejected where a statement should begin. -/
theorem statement_of_stray (hint : f.current.literal ≠ "int") (hdo : f.current.literal ≠ "do")
    (hstarts : startsAssignment f = false) :
    statement f = reject (.unexpected f.current.toLexeme) f := by
  simp [statement, hint, hdo, hstarts]

/-- A statement is read as the construct that its first token tells. -/
theorem statement_cases (f : Feed) :
    (f.current.literal = "int" ∧ statement f = declaration f) ∨
      (f.current.literal = "do" ∧ statement f = loop f) ∨
      (f.current.literal ≠ "int" ∧ f.current.literal ≠ "do" ∧
        (startsAssignment f = true ∧ statement f = assignment f ∨
          startsAssignment f = false ∧
            statement f = reject (.unexpected f.current.toLexeme) f)) := by
  by_cases hint : f.current.literal = "int"
  · exact .inl ⟨hint, statement_of_int hint⟩
  by_cases hdo : f.current.literal = "do"
  · exact .inr (.inl ⟨hdo, statement_of_do hdo⟩)
  refine .inr (.inr ⟨hint, hdo, ?_⟩)
  by_cases hstarts : startsAssignment f = true
  · exact .inl ⟨hstarts, statement_of_assignment hint hdo hstarts⟩
  · have hstarts : startsAssignment f = false := by simpa using hstarts
    exact .inr ⟨hstarts, statement_of_stray hint hdo hstarts⟩

/-- Reading a statement is loud. -/
theorem loud_statement (f : Feed) : statement.Loud f := by
  obtain ⟨-, heq⟩ | ⟨-, heq⟩ | ⟨-, -, ⟨-, heq⟩ | ⟨-, heq⟩⟩ := statement_cases f
  · exact loud_congr heq (settled_declaration f).loud
  · exact loud_congr heq (loud_loop f)
  · exact loud_congr heq (settled_assignment f).loud
  · exact loud_congr heq (settled_reject _ f).loud

/-- Reading a statement yields exactly if one is derived from the current token on. -/
theorem yields_statement_iff (hf : f.Live) {s : Stmt} :
    statement.Yields f s g ↔ ∃ us, f.Moves us g ∧ Grammar.Statement (f.current :: us) s := by
  obtain ⟨hint, heq⟩ | ⟨hdo, heq⟩ | ⟨hint, hdo, ⟨hstarts, heq⟩ | ⟨hstarts, heq⟩⟩ :=
    statement_cases f
  · rw [yields_congr heq, yields_declaration_iff hf]
    refine exists_congr fun us => and_congr_right fun _ => ?_
    constructor
    · exact .declaration hint
    · intro h
      cases h with
      | declaration _ hs => exact hs
      | loop hdo _ => rw [hint] at hdo; exact absurd hdo (by decide)
      | assignment _ hne _ _ => exact absurd hint hne
  · rw [yields_congr heq, yields_loop_iff hf]
    refine exists_congr fun us => and_congr_right fun _ => ?_
    constructor
    · exact .loop hdo
    · intro h
      cases h with
      | declaration hint _ => rw [hint] at hdo; exact absurd hdo (by decide)
      | loop _ hs => exact hs
      | assignment _ _ hne _ => exact absurd hdo hne
  · rw [yields_congr heq, yields_assignment_iff hf]
    refine exists_congr fun us => and_congr_right fun _ => ?_
    constructor
    · exact .assignment (startsAssignment_iff.mp hstarts).1 hint hdo
    · intro h
      cases h with
      | declaration h _ => exact absurd h hint
      | loop h _ => exact absurd h hdo
      | assignment _ _ _ hs => exact hs
  · rw [yields_congr heq]
    simp only [not_yields_reject, false_iff]
    rintro ⟨us, hmoves, hspells⟩
    cases hspells with
    | declaration h _ => exact hint h
    | loop h _ => exact hdo h
    | assignment hkind _ _ hs =>
        cases hs with
        | mk hequals _ _ =>
            obtain ⟨hpeek, -, -, -⟩ := hf.of_cons hmoves
            have hopens := startsAssignment_iff.mpr ⟨hkind, by rw [hpeek, hequals]⟩
            rw [hopens] at hstarts
            exact absurd hstarts (by decide)

/-! ## Rows of statements -/

/-- At the end no statement is read, whatever the rounds. -/
theorem statements_of_atEnd {rounds : Nat} (hend : f.atEnd = true) :
    statements rounds f = ⟨[], f, Notes.none⟩ := by
  unfold statements
  rw [if_pos hend]

/-- In front of the end, a round reads a statement and leaves the rest to the other rounds. -/
theorem statements_succ {rounds : Nat} (hend : f.atEnd = false) :
    statements (rounds + 1) f =
      ⟨(statement f).value.toList ++ (statements rounds (statement f).feed.advance).items,
        (statements rounds (statement f).feed.advance).feed,
        (statement f).notes ++ (statements rounds (statement f).feed.advance).notes⟩ := by
  rw [statements, if_neg (by simp [hend])]

/-- Rounds that raise no diagnostic read a row of statements up to an end token. -/
theorem statements_sound (rounds : Nat) (hf : f.Live)
    (hquiet : (statements rounds f).notes.errors = []) :
    ∃ ts, f.Passes ts (statements rounds f).feed ∧
      Grammar.Statements ts (statements rounds f).items ∧
      (statements rounds f).feed.atEnd = true := by
  induction rounds generalizing f with
  | zero =>
      by_cases hend : f.atEnd = true
      · rw [statements_of_atEnd hend]
        exact ⟨[], Feed.Passes.refl f, .nil, hend⟩
      · -- running out of rounds is a diagnostic of its own
        rw [statements, if_neg hend] at hquiet
        exact absurd hquiet (by simp [Notes.one])
  | succ rounds ih =>
      by_cases hend : f.atEnd = true
      · rw [statements_of_atEnd hend]
        exact ⟨[], Feed.Passes.refl f, .nil, hend⟩
      have hend' : f.atEnd = false := by simpa using hend
      rw [statements_succ hend'] at hquiet ⊢
      rw [Notes.errors_append, List.append_eq_nil_iff] at hquiet
      obtain ⟨s, g, hs⟩ := loud_statement f hquiet.1
      obtain ⟨us, hmoves, hspells⟩ := (yields_statement_iff hf).mp hs
      have hne := following_ne_nil_of_moves hf hmoves (isEnd_last_of_statement hspells)
      have hlive := hf.of_moves hmoves
      have hrest := hquiet.2
      rw [hs.feed] at hrest ⊢
      obtain ⟨ts, hpasses, hstatements, hstop⟩ := ih hlive.advance hrest
      refine ⟨f.current :: us ++ ts, (hmoves.passes hlive.free hne).trans hpasses, ?_, hstop⟩
      rw [hs.value]
      exact .cons hend' hspells hstatements

/-- The tokens of a row of statements are read without a diagnostic, and as that row, if there is
a round for each of them. -/
theorem statements_complete {ts : List Token} {ss : List Stmt} {rounds : Nat}
    (hspells : Grammar.Statements ts ss) (hf : f.Live) (hpasses : f.Passes ts g)
    (hend : g.atEnd = true) (hrounds : ts.length ≤ rounds) :
    (statements rounds f).Clean ss g := by
  induction hspells generalizing f rounds with
  | nil =>
      obtain rfl := hpasses.eq_of_nil
      rw [statements_of_atEnd hend]
      exact ⟨rfl, rfl, rfl⟩
  | @cons first us ts s ss hfirst hs hss ih =>
      rw [← List.cons_append] at hpasses
      obtain ⟨hcurrent, g', hmoves, -, hpasses'⟩ := Feed.Passes.moves_of_append hf.free hpasses
      have hyields : statement.Yields f s g' := by
        rw [yields_statement_iff hf, hcurrent]
        exact ⟨us, hmoves, hs⟩
      have hstart : f.atEnd = false := by rw [Feed.atEnd, hcurrent, hfirst]
      obtain ⟨rounds, rfl⟩ : ∃ n, rounds = n + 1 := by
        rw [List.length_cons] at hrounds
        exact ⟨rounds - 1, by omega⟩
      have hlen : ts.length ≤ rounds := by
        simp only [List.length_cons, List.length_append] at hrounds
        omega
      obtain ⟨hitems, hfeed, hquiet⟩ := ih (hf.of_moves hmoves).advance hpasses' hlen
      rw [statements_succ hstart, hyields.feed, hyields.value]
      refine ⟨?_, hfeed, ?_⟩
      · rw [hitems]
        rfl
      · rw [Notes.errors_append, hyields.quiet, hquiet, List.append_nil]

end Parse

end DoWhile
