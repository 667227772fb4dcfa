import DoWhile.Proofs.Parse.Acceptance
import DoWhile.Proofs.Parse.Progress
import DoWhile.Proofs.Token.Layout
import Mathlib.Data.List.Forall2

/-!
# What is read in spite of errors

Recovering from an error skips tokens and never makes any up. Statements are *found* in a row of
tokens if each of them is spelled by a block of the row, the blocks stand in the order of the
statements, and whatever is between them is skipped (`Grammar.Found`). The block of a declaration or
an assignment is the whole of it; in the block of a loop, the assignments of the body are found in
turn, and a loop whose opening brace is missing has skipped everything up to its condition
(`Grammar.LoopBlock`).

`Found.round` is one round of a loop of the parser: what it yields stands in a block, and what it
gives up is skipped. The rounds of a body and of the statements are both of this form
(`BodyRun.found`, `statements_found`). For the tokens of a text the blocks are ranges of indices
(`parse_scan_blocks`).
-/

set_option autoImplicit false

namespace DoWhile

namespace Grammar

/-! ## Blocks with skipped tokens between them -/

/-- Statements in the order of their blocks in a row of tokens, with any tokens skipped in front of
each block and behind the last one. -/
inductive Found (Block : List Token → Stmt → Prop) : List Token → List Stmt → Prop
  | none (skipped : List Token) : Found Block skipped []
  | next (skipped : List Token) {block ts : List Token} {s : Stmt} {ss : List Stmt}
      (hs : Block block s) (hss : Found Block ts ss) :
      Found Block (skipped ++ (block ++ ts)) (s :: ss)

/-- The block of an assignment, from its target to its semicolon. -/
inductive AssignmentBlock : List Token → Stmt → Prop
  | mk {first : Token} {us : List Token} {s : Stmt} (hfirst : first.kind = .identifier)
      (hs : Assignment (first :: us) s) : AssignmentBlock (first :: us) s

/-- The block of a loop behind its first token. With braces, the body is found between them; without
an opening brace, the body is empty and the condition comes after any skipped tokens. -/
inductive LoopBlock : List Token → Stmt → Prop
  | braced {first opening closing word : Token} {ts us : List Token} {body : List Stmt}
      {test : Expr} (hopening : opening.isMark "\x7b" = true)
      (hbody : Found AssignmentBlock ts body) (hclosing : closing.literal = "\x7d")
      (hword : word.isMark "while" = true) (htest : Condition (word :: us) test) :
      LoopBlock (first :: opening :: (ts ++ closing :: word :: us))
        (.loop body test first.position)
  | bare {first word : Token} {skipped us : List Token} {test : Expr}
      (hword : word.literal = "while") (htest : Condition (word :: us) test) :
      LoopBlock (first :: (skipped ++ word :: us)) (.loop [] test first.position)

/-- The block of a statement, told by its first token. -/
inductive StatementBlock : List Token → Stmt → Prop
  | declaration {first : Token} {us : List Token} {s : Stmt} (hfirst : first.literal = "int")
      (hs : Declaration (first :: us) s) : StatementBlock (first :: us) s
  | loop {first : Token} {us : List Token} {s : Stmt} (hfirst : first.literal = "do")
      (hs : LoopBlock (first :: us) s) : StatementBlock (first :: us) s
  | assignment {ts : List Token} {s : Stmt} (hs : AssignmentBlock ts s) : StatementBlock ts s

/-- The block of a statement is not empty. -/
theorem StatementBlock.ne_nil {ts : List Token} {s : Stmt} (h : StatementBlock ts s) : ts ≠ [] := by
  cases h with
  | declaration _ _ => exact List.cons_ne_nil _ _
  | loop _ _ => exact List.cons_ne_nil _ _
  | assignment hs =>
      cases hs
      exact List.cons_ne_nil _ _

/-- Tokens may be skipped in front of found statements. -/
theorem Found.skip {Block : List Token → Stmt → Prop} {ts : List Token} {ss : List Stmt}
    (h : Found Block ts ss) (skipped : List Token) : Found Block (skipped ++ ts) ss := by
  cases h with
  | none _ => exact .none _
  | next _ hs hss =>
      rw [← List.append_assoc]
      exact .next _ hs hss

/-- Tokens may be skipped behind found statements. -/
theorem Found.skip_behind {Block : List Token → Stmt → Prop} {ts : List Token} {ss : List Stmt}
    (h : Found Block ts ss) (skipped : List Token) : Found Block (ts ++ skipped) ss := by
  induction h with
  | none _ => exact .none _
  | next _ hs _ ih =>
      rw [List.append_assoc, List.append_assoc]
      exact .next _ hs ih

/-! ## Blocks as ranges of indices -/

end Grammar

/-- A range of indices, from `start` up to but not including `stop`. -/
structure Span where
  start : Nat
  stop : Nat
  deriving DecidableEq, Repr, Inhabited

/-- The block lies in the tokens at the span. -/
def Span.Holds (Block : List Token → Stmt → Prop) (ts : List Token) (r : Span) (s : Stmt) : Prop :=
  r.start < r.stop ∧ Block (ts.extract r.start r.stop) s

/-- The part of a row between two of its parts is taken out by their lengths. -/
theorem extract_append_append {α : Type} (front block rest : List α) :
    (front ++ (block ++ rest)).extract front.length (front.length + block.length) = block := by
  rw [List.extract_eq_take_drop, List.drop_left, Nat.add_sub_cancel_left, List.take_left]

/-- Statements found in a row that stands in a longer one hold spans of it, one behind the other. -/
theorem Grammar.Found.spans {Block : List Token → Stmt → Prop} {ts : List Token} {ss : List Stmt}
    (h : Found Block ts ss) (hne : ∀ {ts s}, Block ts s → ts ≠ []) (front rest : List Token) :
    ∃ spans : List Span, spans.Pairwise (fun a b => a.stop ≤ b.start) ∧
      (∀ r ∈ spans, front.length ≤ r.start ∧ r.stop ≤ front.length + ts.length) ∧
      List.Forall₂ (Span.Holds Block (front ++ (ts ++ rest))) spans ss := by
  -- what was read already goes to the front
  induction h generalizing front with
  | none skipped => exact ⟨[], .nil, by simp, .nil⟩
  | @next skipped block ts s ss hs hss ih =>
      obtain ⟨spans, hapart, hinside, hholds⟩ := ih (front ++ skipped ++ block)
      have hpos := List.length_pos_iff.mpr (hne hs)
      have hshow : front ++ (skipped ++ (block ++ ts) ++ rest) =
          front ++ skipped ++ (block ++ (ts ++ rest)) := by
        simp only [List.append_assoc]
      have hshow' : front ++ (skipped ++ (block ++ ts) ++ rest) =
          front ++ skipped ++ block ++ (ts ++ rest) := by
        simp only [List.append_assoc]
      simp only [List.length_append] at hinside ⊢
      refine ⟨⟨front.length + skipped.length,
        front.length + skipped.length + block.length⟩ :: spans, ?_, ?_, ?_⟩
      · rw [List.pairwise_cons]
        exact ⟨fun r hr => (hinside r hr).1, hapart⟩
      · rw [List.forall_mem_cons]
        refine ⟨by dsimp only; omega, ?_⟩
        intro r hr
        have hr' := hinside r hr
        omega
      · refine .cons ⟨by dsimp only; omega, ?_⟩ (by rw [hshow']; exact hholds)
        have hblock := extract_append_append (front ++ skipped) block (ts ++ rest)
        rw [List.length_append] at hblock
        rw [hshow, hblock]
        exact hs

namespace Parse

open Grammar

/-! ## What a parse gives -/

section Gives

variable {α β : Type} {p : Parse α} {q : α → Parse β} {f g h : Feed}

/-- The parse gives `a` at the feed `f` and moves on to `g`, whatever diagnostics it raises. -/
structure Gives (p : Parse α) (f : Feed) (a : α) (g : Feed) : Prop where
  value : (p f).value = some a
  feed : (p f).feed = g

/-- A settled parse that gives a value yields it. -/
theorem Settled.yields_of_gives {a : α} (hp : p.Settled f) (h : p.Gives f a g) :
    p.Yields f a g := by
  obtain ⟨b, g', hyields⟩ | ⟨hnone, -⟩ := hp
  · obtain rfl : b = a := Option.some.inj (hyields.value.symm.trans h.value)
    exact ⟨h.value, h.feed, hyields.quiet⟩
  · rw [h.value] at hnone
    exact absurd hnone (by simp)

/-- Two parses give a value exactly if the first gives one to the second, which gives it. -/
theorem gives_bind {b : β} :
    (p >>= q).Gives f b h ↔ ∃ a g, p.Gives f a g ∧ (q a).Gives g b h := by
  constructor
  · rintro ⟨hvalue, hfeed⟩
    cases hp : (p f).value with
    | none => rw [bind_of_none hp] at hvalue; exact absurd hvalue (by simp)
    | some a =>
        rw [bind_of_some hp] at hvalue hfeed
        exact ⟨a, (p f).feed, ⟨hp, rfl⟩, hvalue, hfeed⟩
  · rintro ⟨a, g, ⟨hvalue, rfl⟩, hvalue', hfeed'⟩
    have hbind := bind_of_some (q := q) hvalue
    exact ⟨by rw [hbind, hvalue'], by rw [hbind, hfeed']⟩

/-- Giving a value gives it where it stands. -/
theorem gives_pure {a b : α} : (pure a : Parse α).Gives f b g ↔ a = b ∧ f = g :=
  ⟨fun h => ⟨Option.some.inj h.value, h.feed⟩, fun h => ⟨congrArg some h.1, h.2⟩⟩

/-- Looking at the current token gives what comes behind for that token. -/
theorem gives_current_bind {r : Token → Parse β} {b : β} :
    (current >>= r).Gives f b h ↔ (r f.current).Gives f b h := by
  rw [gives_bind]
  constructor
  · rintro ⟨t, g, ⟨hvalue, rfl⟩, hr⟩
    obtain rfl : f.current = t := Option.some.inj hvalue
    exact hr
  · exact fun hr => ⟨f.current, f, ⟨rfl, rfl⟩, hr⟩

/-- Moving gives what comes behind at the feed moved to. -/
theorem gives_move_bind {m : Feed → Feed} {r : Unit → Parse β} {b : β} :
    (move m >>= r).Gives f b h ↔ (r ()).Gives (m f) b h := by
  rw [gives_bind]
  constructor
  · rintro ⟨⟨⟩, g, ⟨-, rfl⟩, hr⟩
    exact hr
  · exact fun hr => ⟨(), m f, ⟨rfl, rfl⟩, hr⟩

/-- An expected text gives what comes behind if it is there. -/
theorem gives_expect_bind {w : String} {wanted : Expectation} {r : Unit → Parse β} {b : β} :
    (expect w wanted >>= r).Gives f b h ↔
      f.peek.isMark w = true ∧ (r ()).Gives f.advance b h := by
  rw [gives_bind]
  constructor
  · rintro ⟨⟨⟩, g, hexpect, hr⟩
    obtain ⟨hmark, rfl⟩ := yields_expect.mp ((settled_expect w wanted f).yields_of_gives hexpect)
    exact ⟨hmark, hr⟩
  · rintro ⟨hmark, hr⟩
    have hyields : (expect w wanted).Yields f () f.advance := yields_expect.mpr ⟨hmark, rfl⟩
    exact ⟨(), f.advance, ⟨hyields.value, hyields.feed⟩, hr⟩

/-- Asking for a symbol or reserved word gives an answer either way, and moves on if it is there. -/
theorem gives_succeeds_expect {w : String} {wanted : Expectation} {b : Bool}
    (h : (expect w wanted).succeeds.Gives f b g) :
    (b = true ∧ f.peek.isMark w = true ∧ g = f.advance) ∨ (b = false ∧ g = f) := by
  obtain ⟨hvalue, hfeed⟩ := h
  have hvalue : ((expect w wanted) f).value.isSome = b := Option.some.inj hvalue
  have hfeed : ((expect w wanted) f).feed = g := hfeed
  by_cases hmark : f.peek.isMark w = true
  · have heq : expect w wanted f = advance f := by rw [expect, expectThat, if_pos hmark]
    rw [heq] at hvalue hfeed
    exact .inl ⟨hvalue.symm, hmark, hfeed.symm⟩
  · have heq : expect w wanted f = reject (.expected wanted f.peek.toLexeme) f := by
      rw [expect, expectThat, if_neg hmark]
    rw [heq] at hvalue hfeed
    exact .inr ⟨hvalue.symm, hfeed.symm⟩

end Gives

variable {f g : Feed}

/-! ## One round -/

/-- A round of a loop of the parser: what the round reads stands in a block in front of what the
others read, and what it gives up is skipped. -/
theorem found_round {Block : List Token → Stmt → Prop} {o : Outcome Stmt} {ss : List Stmt}
    (hf : f.Live) (hwalk : f.Walk o.notes.errors o.feed)
    (hblock : ∀ s, o.value = some s → ∃ us, f.Moves us o.feed ∧ Block (f.current :: us) s ∧
      (us.getLastD f.current).isEnd = false)
    (hrest : ∃ ts, o.feed.advance.Passes ts g ∧ Found Block ts ss) :
    ∃ ts, f.Passes ts g ∧ Found Block ts (o.value.toList ++ ss) := by
  obtain ⟨ts, hpasses, hfound⟩ := hrest
  cases hvalue : o.value with
  | none =>
      obtain ⟨us, hmoves, -⟩ := (hwalk.trans (Feed.walk_advance o.feed)).exists_moves
      obtain ⟨skipped, -, hskipped⟩ := hmoves.exists_passes
      exact ⟨skipped ++ ts, hskipped.trans hpasses, hfound.skip skipped⟩
  | some s =>
      obtain ⟨us, hmoves, hs, hlast⟩ := hblock s hvalue
      have hne := following_ne_nil_of_moves hf hmoves hlast
      have hpassed := hmoves.passes (hwalk.live hf).free hne
      exact ⟨[] ++ (f.current :: us ++ ts), hpassed.trans hpasses, .next [] hs hfound⟩

/-! ## Loops -/

/-- An item of a loop body that is read is an assignment block, which does not end in an end
token. -/
theorem bodyItem_block (hf : f.Live) {s : Stmt} (hs : (bodyItem f).value = some s) :
    ∃ us, f.Moves us (bodyItem f).feed ∧ AssignmentBlock (f.current :: us) s ∧
      (us.getLastD f.current).isEnd = false := by
  have hyields := (settled_bodyItem f).yields_of_gives ⟨hs, rfl⟩
  obtain ⟨hkind, us, hmoves, hspells⟩ := (yields_bodyItem_iff hf).mp hyields
  exact ⟨us, hmoves, .mk hkind hspells, isEnd_last_of_assignment hspells⟩

/-- The items of a body are found in the tokens that reading it passes. -/
theorem BodyRun.found {st : Stretch} (h : BodyRun f st) (hf : f.Live) :
    ∃ ts, f.Passes ts st.feed ∧ Found AssignmentBlock ts st.items := by
  induction h with
  | @done f _ => exact ⟨[], Feed.Passes.refl f, .none []⟩
  | @broken f _ _ =>
      obtain ⟨us, hmoves, -⟩ := (walks_bodyItem f).exists_moves
      obtain ⟨skipped, -, hskipped⟩ := hmoves.exists_passes
      exact ⟨skipped, hskipped, .none skipped⟩
  | @item f rest _ _ _ _ ih =>
      have hwalk := walks_bodyItem f
      exact found_round hf hwalk (fun s hs => bodyItem_block hf hs) (ih (hwalk.live hf).advance)
  | @stuck f hends _ hlt =>
      exact absurd (hf.advance_lt (isEnd_of_endsBody hends) (walks_bodyItem f)) hlt

/-- A body that is closed has the items that were read, and ends on a closing brace. -/
theorem gives_closedBody {ss : List Stmt} (h : closedBody.Gives f ss g) :
    ss = (body f).items ∧ g = (body f).feed ∧ g.current.literal = "\x7d" := by
  rw [closedBody_eq, gives_bind] at h
  obtain ⟨items, g', ⟨hvalue, rfl⟩, h⟩ := h
  obtain rfl : (body f).items = items := Option.some.inj hvalue
  rw [gives_current_bind] at h
  by_cases hbrace : (body f).feed.current.literal = "\x7d"
  · rw [if_pos (by simpa [items] using hbrace), gives_pure] at h
    obtain ⟨rfl, rfl⟩ := h
    exact ⟨rfl, rfl, hbrace⟩
  · rw [if_neg (by simpa [items] using hbrace)] at h
    exact absurd h.value (by simp [reject])

/-- A search for a condition that does not fail ends on the word before it. -/
theorem gives_seekCondition {u : Unit} (hf : f.Live) (h : seekCondition.Gives f u g) :
    g.current.literal = "while" ∧ ∃ us, f.Moves us g := by
  rw [seekCondition, gives_move_bind, gives_current_bind] at h
  by_cases hend : (f.skipTo "while").current.isEnd = true
  · rw [if_pos hend] at h
    exact absurd h.value (by simp [fail])
  · rw [if_neg hend, gives_pure] at h
    obtain ⟨-, rfl⟩ := h
    have hstops := (Feed.loops_skipTo "while" hf).stops
    obtain ⟨us, hmoves, -⟩ := (Feed.walk_skipTo "while" f).exists_moves
    exact ⟨by simpa [Feed.stopsAt, Feed.atEnd, hend] using hstops, us, hmoves⟩

/-- A loop behind its opening brace: the body is found between the braces. -/
theorem braced_block {first : Token} {s : Stmt} (hf : f.Live)
    (hopening : f.peek.isMark "\x7b" = true)
    (h : (advance >>= fun _ => closedBody >>= fun items =>
      expect "while" .whileAfterBody >>= fun _ => condition >>= fun test =>
        pure (.loop items test first.position)).Gives f.advance s g) :
    ∃ us, f.Moves us g ∧ LoopBlock (first :: us) s ∧ (us.getLastD f.current).isEnd = false := by
  rw [advance, gives_move_bind, gives_bind] at h
  obtain ⟨body, g', hclosed, h⟩ := h
  rw [gives_expect_bind, gives_bind] at h
  obtain ⟨hword, test, g'', htest, h⟩ := h
  obtain ⟨rfl, rfl⟩ := gives_pure.mp h
  obtain ⟨rfl, rfl, hclosing⟩ := gives_closedBody hclosed
  -- onto the opening brace, past the body and onto the closing one
  have hopen := hf.moves_advance (Token.isEnd_of_isMark hopening)
  have hlive := hf.advance
  have hne := hf.following_advance_ne_nil (Token.isEnd_of_isMark hopening)
  obtain ⟨ts, hpasses, hbody⟩ := (bodyRun_body _).found hlive.advance
  have hclose := (Feed.moves_concat_iff hlive.free hne).mpr ⟨hpasses, rfl⟩
  -- onto the word and through the condition
  have hlive' := hlive.of_moves hclose
  have hmove := hlive'.moves_advance (Token.isEnd_of_isMark hword)
  have hyields := (settled_condition _).yields_of_gives htest
  obtain ⟨us, hmoves, hspells⟩ := (yields_condition_iff hlive'.advance).mp hyields
  rw [Feed.current_advance hlive'.free] at hspells
  have hall := hopen.trans (hclose.trans (hmove.trans hmoves))
  simp only [List.append_assoc, List.singleton_append] at hall
  refine ⟨_, hall, .braced hopening hbody hclosing hword hspells, ?_⟩
  rw [← List.cons_append, getLastD_append_cons, List.getLastD_cons]
  exact isEnd_last_of_condition hspells

/-- A loop without its opening brace: everything in front of the condition is skipped. -/
theorem bare_block {s : Stmt} (hf : f.Live) (hdo : f.current.literal = "do")
    (h : (seekCondition >>= fun _ => condition >>= fun test =>
      pure (.loop [] test f.current.position)).Gives f s g) :
    ∃ us, f.Moves us g ∧ LoopBlock (f.current :: us) s ∧ (us.getLastD f.current).isEnd = false := by
  rw [gives_bind] at h
  obtain ⟨⟨⟩, g', hseek, h⟩ := h
  rw [gives_bind] at h
  obtain ⟨test, g'', htest, h⟩ := h
  obtain ⟨rfl, rfl⟩ := gives_pure.mp h
  obtain ⟨hword, us, hmoves⟩ := gives_seekCondition hf hseek
  -- the search began on another word, so it moved
  rcases List.eq_nil_or_concat us with rfl | ⟨skipped, word, rfl⟩
  · rw [hmoves.eq_of_nil, hdo] at hword
    exact absurd hword (by decide)
  · rw [List.concat_eq_append] at hmoves
    have hlast : g'.current = word := by
      rw [hmoves.current, getLastD_append_cons, List.getLastD_nil]
    have hyields := (settled_condition _).yields_of_gives htest
    obtain ⟨us, hmoves', hspells⟩ := (yields_condition_iff (hf.of_moves hmoves)).mp hyields
    rw [hlast] at hspells hword
    have hall := hmoves.trans hmoves'
    rw [List.append_assoc, List.singleton_append] at hall
    refine ⟨_, hall, .bare hword hspells, ?_⟩
    rw [getLastD_append_cons]
    exact isEnd_last_of_condition hspells

/-- What a loop gives stands in a block, and the block ends with its condition. -/
theorem loop_block (hf : f.Live) (hdo : f.current.literal = "do") {s : Stmt}
    (h : loop.Gives f s g) :
    ∃ us, f.Moves us g ∧ LoopBlock (f.current :: us) s ∧ (us.getLastD f.current).isEnd = false := by
  rw [loop, gives_current_bind, gives_bind] at h
  obtain ⟨opened, f', hopened, h⟩ := h
  obtain ⟨rfl, hopening, rfl⟩ | ⟨rfl, rfl⟩ := gives_succeeds_expect hopened
  · exact braced_block hf hopening h
  · exact bare_block hf hdo h

/-! ## Statements -/

/-- A statement that is read is a statement block, which does not end in an end token. -/
theorem statement_block (hf : f.Live) {s : Stmt} (hs : (statement f).value = some s) :
    ∃ us, f.Moves us (statement f).feed ∧ StatementBlock (f.current :: us) s ∧
      (us.getLastD f.current).isEnd = false := by
  obtain ⟨hint, heq⟩ | ⟨hdo, heq⟩ | ⟨-, -, ⟨hstarts, heq⟩ | ⟨-, heq⟩⟩ := statement_cases f
  · rw [heq] at hs ⊢
    have hyields := (settled_declaration f).yields_of_gives ⟨hs, rfl⟩
    obtain ⟨us, hmoves, hspells⟩ := (yields_declaration_iff hf).mp hyields
    exact ⟨us, hmoves, .declaration hint hspells, isEnd_last_of_declaration hspells⟩
  · rw [heq] at hs ⊢
    obtain ⟨us, hmoves, hblock, hlast⟩ := loop_block hf hdo ⟨hs, rfl⟩
    exact ⟨us, hmoves, .loop hdo hblock, hlast⟩
  · rw [heq] at hs ⊢
    have hyields := (settled_assignment f).yields_of_gives ⟨hs, rfl⟩
    obtain ⟨us, hmoves, hspells⟩ := (yields_assignment_iff hf).mp hyields
    have hkind := (startsAssignment_iff.mp hstarts).1
    exact ⟨us, hmoves, .assignment (.mk hkind hspells), isEnd_last_of_assignment hspells⟩
  · rw [heq] at hs
    exact absurd hs (by simp [reject])

/-- Statements are found in the tokens that reading them passes. -/
theorem statements_found (rounds : Nat) (hf : f.Live) :
    ∃ ts, f.Passes ts (statements rounds f).feed ∧
      Found StatementBlock ts (statements rounds f).items := by
  induction rounds generalizing f with
  | zero =>
      by_cases hend : f.atEnd = true
      · rw [statements_of_atEnd hend]
        exact ⟨[], Feed.Passes.refl f, .none []⟩
      · rw [statements, if_neg hend]
        exact ⟨[], Feed.Passes.refl f, .none []⟩
  | succ rounds ih =>
      by_cases hend : f.atEnd = true
      · rw [statements_of_atEnd hend]
        exact ⟨[], Feed.Passes.refl f, .none []⟩
      have hwalk := walks_statement f
      rw [statements_succ (by simpa using hend)]
      exact found_round hf hwalk (fun s hs => statement_block hf hs) (ih (hwalk.live hf).advance)

end Parse

/-! ## Whole token lists -/

/-- The statements that are parsed from any tokens are found in the closed list, in front of its
last token. -/
theorem parse_found (tokens : List Token) :
    Grammar.Found Grammar.StatementBlock (closed tokens).dropLast
      (parse tokens).program.statements := by
  obtain ⟨ts, hpasses, hfound⟩ :=
    Parse.statements_found (Parse.allowance (closed tokens).length) (Feed.live_ofTokens tokens)
  have htokens := hpasses.tokens
  rw [Feed.ofTokens_tokens] at htokens
  rw [htokens, List.dropLast_append_of_ne_nil (List.cons_ne_nil _ _)]
  exact hfound.skip_behind _

/-- A scan is closed already. -/
theorem closed_scan (source : String) : closed (scan source) = scan source := by
  obtain ⟨ts, q, hts, -⟩ := exists_scan_eq source
  rw [hts]
  simp [closed, missingEnd, Token.isEnd, Token.endAt, Lexeme.endOfInput]

/-- The statements that are read from a text are found in its tokens, in front of the end. -/
theorem parse_scan_found (source : String) :
    Grammar.Found Grammar.StatementBlock (scan source).dropLast
      (parse (scan source)).program.statements := by
  have hfound := parse_found (scan source)
  rw [closed_scan] at hfound
  exact hfound

/-- **Recovery only skips forward.** Whatever errors a text has, the statements that are read from
it hold spans of its tokens, in order, apart from each other and in front of the end of the input.
Each span holds the whole block of its statement: a declaration or an assignment token by token, a
loop from its first token to the end of its condition with its body found in between, and every node
at the place of its first token. -/
theorem parse_scan_blocks (source : String) :
    ∃ spans : List Span, spans.Pairwise (fun a b => a.stop ≤ b.start) ∧
      (∀ r ∈ spans, r.stop < (scan source).length) ∧
      List.Forall₂ (Span.Holds Grammar.StatementBlock (scan source)) spans
        (parse (scan source)).program.statements := by
  have hne : scan source ≠ [] := by
    rw [← closed_scan]
    exact closed_ne_nil _
  have hsplit := List.dropLast_append_getLast hne
  obtain ⟨spans, hapart, hinside, hholds⟩ :=
    (parse_scan_found source).spans Grammar.StatementBlock.ne_nil [] [(scan source).getLast hne]
  rw [List.nil_append, hsplit] at hholds
  refine ⟨spans, hapart, ?_, hholds⟩
  intro r hr
  have hstop := (hinside r hr).2
  have hpos := List.length_pos_iff.mpr hne
  rw [List.length_nil, List.length_dropLast] at hstop
  omega

end DoWhile
