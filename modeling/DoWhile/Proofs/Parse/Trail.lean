import DoWhile.Proofs.Parse.Statements

/-!
# Trails of a feed

What a parse notes on its way is a trail: at each point it raises a diagnostic at the token under
examination, in the one way in which diagnostics are raised, or moves on by one token
(`Feed.Trail`). A complaint speaks of the tokens that are at hand where it is raised
(`Complaint.RaisedAt`). So every diagnostic of a trail is logged once and in order
(`Feed.Trail.log_eq`), and its wording is that of some feed on the way (`Feed.Trail.raised`).

A parse that is sequenced from parses that leave trails leaves one itself; the values that it reads
off its feed are kept, because complaints repeat them. Every parse of the grammar leaves a trail.
-/

set_option autoImplicit false

namespace DoWhile

/-- Does what was asked for name the token under examination, where it names one? -/
def Expectation.NamedAt (f : Feed) : Expectation → Prop
  | equalsAfterVariable name => name = f.current.literal
  | equalsAfterTarget target => target = f.current.literal
  | other _ => False
  | _ => True

/-- Does the complaint speak of the tokens at hand? -/
def Complaint.RaisedAt (f : Feed) : Complaint → Prop
  | unexpected found => found = f.current.toLexeme
  | expected wanted found => wanted.NamedAt f ∧
      (found = f.current.toLexeme ∨ found = f.peek.toLexeme ∨ found = Lexeme.endOfInput)
  | _ => False

namespace Feed

/-- The feed goes from `f` to `g`, and `n` is noted on the way. -/
inductive Trail : Feed → Notes → Feed → Prop
  | stay (f : Feed) : Trail f Notes.none f
  | raise {f g : Feed} {n : Notes} {c : Complaint} (hc : c.RaisedAt f) (h : Trail f n g) :
      Trail f (Notes.one ⟨.grammar, c, f.current.position⟩ ++ n) g
  | step {f g : Feed} {n : Notes} (h : Trail f.advance n g) : Trail f n g

/-- Trails can be followed one behind the other. -/
theorem Trail.trans {f g h : Feed} {m n : Notes} (hfg : f.Trail m g) (hgh : g.Trail n h) :
    f.Trail (m ++ n) h := by
  induction hfg with
  | stay f => exact hgh
  | @raise f g m c hc _ ih =>
      have hassoc : Notes.one ⟨.grammar, c, f.current.position⟩ ++ m ++ n =
          Notes.one ⟨.grammar, c, f.current.position⟩ ++ (m ++ n) := rfl
      rw [hassoc]
      exact .raise hc (ih hgh)
  | step _ ih => exact .step (ih hgh)

/-- Moving on leaves a trail without notes. -/
theorem trail_advance (f : Feed) : f.Trail Notes.none f.advance := .step (.stay f.advance)

/-- A search for a text leaves a trail without notes. -/
theorem trail_seek (w : String) (t : Token) (ts : List Token) :
    (⟨t, ts, false⟩ : Feed).Trail Notes.none (seek w t ts) := by
  induction ts generalizing t with
  | nil => exact .stay _
  | cons u us ih =>
      rw [seek]
      by_cases hstop : (t.isEnd || t.literal == w) = true
      · rw [if_pos hstop]
        exact .stay _
      · rw [if_neg hstop]
        exact .step (ih u)

/-- Skipping to a text leaves a trail without notes. -/
theorem trail_skipTo (w : String) (f : Feed) : f.Trail Notes.none (f.skipTo w) := by
  obtain ⟨current, following, held⟩ := f
  cases held with
  | false => exact trail_seek w current following
  | true => exact .stay _

/-- Moving past a condition leaves a trail without notes. -/
theorem trail_pastCondition (f : Feed) : f.Trail Notes.none f.pastCondition := by
  have hskip := trail_skipTo ")" f
  unfold pastCondition
  dsimp only
  split
  · exact hskip.trans (trail_advance _)
  · exact hskip

/-! ## What a trail notes -/

/-- Every diagnostic of a trail is logged once, and nothing else is. -/
theorem Trail.log_eq {f g : Feed} {n : Notes} (h : f.Trail n g) :
    n.log = n.errors.map .reported := by
  induction h with
  | stay f => rfl
  | @raise f g n c _ _ ih => rw [Notes.log_append, Notes.errors_append, List.map_append, ih]; rfl
  | step _ ih => exact ih

/-- Each diagnostic of a trail is raised where the trail passes. -/
theorem Trail.raised {f g : Feed} {n : Notes} (h : f.Trail n g) :
    ∀ d ∈ n.errors, ∃ k c, f.Trail Notes.none k ∧ c.RaisedAt k ∧
      d = ⟨.grammar, c, k.current.position⟩ := by
  induction h with
  | stay f => simp [Notes.none]
  | @raise f g n c hc _ ih =>
      exact List.forall_mem_cons.mpr ⟨⟨f, c, .stay f, hc, rfl⟩, ih⟩
  | step _ ih =>
      intro d hd
      obtain ⟨k, c, hk, hraised⟩ := ih d hd
      exact ⟨k, c, .step hk, hraised⟩

end Feed

namespace Parse

variable {α β : Type} {p : Parse α} {q : α → Parse β} {f : Feed}

/-- From the feed on, the parse leaves a trail. -/
def TrailsAt (p : Parse α) (f : Feed) : Prop := f.Trail (p f).notes (p f).feed

/-- From every feed on, the parse leaves a trail. -/
def Trails (p : Parse α) : Prop := ∀ f : Feed, p.TrailsAt f

/-- A parse leaves a trail if its outcome is that of one that does. -/
theorem trailsAt_congr {p' : Parse α} (heq : p f = p' f) (h : p'.TrailsAt f) : p.TrailsAt f := by
  rw [TrailsAt, heq]
  exact h

/-! ## Trails of the combinators -/

/-- Giving a value leaves a trail. -/
theorem trails_pure (a : α) : (pure a : Parse α).Trails := fun f => .stay f

/-- Failing leaves a trail. -/
theorem trails_fail : (fail : Parse α).Trails := fun f => .stay f

/-- Moving leaves a trail if the move does. -/
theorem trails_move {m : Feed → Feed} (hm : ∀ f : Feed, f.Trail Notes.none (m f)) :
    (move m).Trails := hm

/-- Moving on leaves a trail. -/
theorem trails_advance : advance.Trails := trails_move Feed.trail_advance

/-- Rejecting leaves a trail if the complaint speaks of the tokens at hand. -/
theorem trailsAt_reject {c : Complaint} (hc : c.RaisedAt f) : (reject c : Parse α).TrailsAt f :=
  .raise hc (.stay f)

/-- A parse and what comes behind it leave a trail from a feed on if the parse does there. -/
theorem trailsAt_bind (hp : p.TrailsAt f) (hq : ∀ a, (q a).Trails) : (p >>= q).TrailsAt f := by
  cases hvalue : (p f).value with
  | none =>
      rw [TrailsAt, bind_of_none hvalue]
      exact hp
  | some a =>
      rw [TrailsAt, bind_of_some hvalue]
      exact Feed.Trail.trans hp (hq a (p f).feed)

/-- A parse and what comes behind it leave a trail. -/
theorem trails_bind (hp : p.Trails) (hq : ∀ a, (q a).Trails) : (p >>= q).Trails :=
  fun f => trailsAt_bind (hp f) hq

/-- What reads the token under examination knows that token. -/
theorem trails_current_bind {q : Token → Parse β} (hq : ∀ f, (q f.current).TrailsAt f) :
    (current >>= q).Trails := hq

/-- A parse that looks at the next token leaves a trail if it does for that token. -/
theorem trails_peek_bind {q : Token → Parse β} (hq : ∀ f, (q f.peek).TrailsAt f) :
    (peek >>= q).Trails := hq

/-- Expecting a token leaves a trail. -/
theorem trailsAt_expectThat (test : Token → Bool) {wanted : Expectation}
    (hwanted : wanted.NamedAt f) : (expectThat test wanted).TrailsAt f := by
  by_cases htest : test f.peek = true
  · exact trailsAt_congr (by rw [expectThat, if_pos htest]) (trails_advance f)
  · have hreject : expectThat test wanted f = reject (.expected wanted f.peek.toLexeme) f := by
      rw [expectThat, if_neg htest]
    exact trailsAt_congr hreject (trailsAt_reject ⟨hwanted, .inr (.inl rfl)⟩)

/-- Expecting a text leaves a trail. -/
theorem trailsAt_expect (literal : String) {wanted : Expectation} (hwanted : wanted.NamedAt f) :
    (expect literal wanted).TrailsAt f := trailsAt_expectThat _ hwanted

/-- Asking whether a parse succeeds leaves a trail if the parse does. -/
theorem trailsAt_succeeds (hp : p.TrailsAt f) : p.succeeds.TrailsAt f := hp

/-- A failure that is followed by a move leaves a trail if the move does. -/
theorem trails_orMove {m : Feed → Feed} (hp : p.Trails)
    (hm : ∀ f : Feed, f.Trail Notes.none (m f)) : (p.orMove m).Trails := by
  intro f
  cases hvalue : (p f).value with
  | none =>
      have hmoved := Feed.Trail.trans (hp f) (hm (p f).feed)
      rw [Notes.append_none] at hmoved
      simpa only [TrailsAt, orMove, hvalue] using hmoved
  | some a => simpa only [TrailsAt, orMove, hvalue] using hp f

/-! ## Trails of the grammar -/

/-- Reading an operand leaves a trail. -/
theorem trails_operand : operand.Trails := by
  refine trails_current_bind fun f => ?_
  cases hkind : f.current.kind with
  | identifier => exact trails_pure _ f
  | number => exact trails_pure _ f
  | reserved => exact trailsAt_reject ⟨trivial, .inl rfl⟩
  | symbol => exact trailsAt_reject ⟨trivial, .inl rfl⟩
  | endOfInput => exact trailsAt_reject ⟨trivial, .inl rfl⟩
  | error => exact trailsAt_reject ⟨trivial, .inl rfl⟩

/-- Reading an expression leaves a trail. -/
theorem trails_expression : expression.Trails := by
  refine trails_bind trails_operand fun left => trails_peek_bind fun f => ?_
  by_cases hsign : isArithmetic f.peek.toLexeme = true
  · rw [if_pos hsign]
    refine trailsAt_bind (trails_advance f) fun _ => trails_current_bind fun g => ?_
    refine trailsAt_bind (trails_advance g) fun _ => trails_bind trails_operand fun right => ?_
    exact trails_pure _
  · rw [if_neg hsign]
    exact trails_pure left f

/-- Reading a comparison leaves a trail. -/
theorem trails_comparison : comparison.Trails := by
  refine trails_bind trails_operand fun left => ?_
  refine trails_bind (fun f => trailsAt_expect "==" trivial) fun _ => ?_
  exact trails_bind trails_advance fun _ => trails_bind trails_operand fun right => trails_pure _

/-- Reading a declaration leaves a trail. -/
theorem trails_declaration : declaration.Trails := by
  refine trails_current_bind fun f => ?_
  refine trailsAt_bind (trailsAt_expectThat _ trivial) fun _ => trails_current_bind fun g => ?_
  refine trailsAt_bind (trailsAt_expect "=" rfl) fun _ => trails_bind trails_advance fun _ => ?_
  refine trails_bind trails_expression fun value => ?_
  exact trails_bind (fun _ => trailsAt_expect ";" trivial) fun _ => trails_pure _

/-- Reading an assignment leaves a trail. -/
theorem trails_assignment : assignment.Trails := by
  refine trails_current_bind fun f => trailsAt_bind (trailsAt_expect "=" rfl) fun _ => ?_
  refine trails_bind trails_advance fun _ => trails_bind trails_expression fun value => ?_
  exact trails_bind (fun _ => trailsAt_expect ";" trivial) fun _ => trails_pure _

/-- Reading a condition leaves a trail. -/
theorem trails_condition : condition.Trails := by
  refine trails_bind (fun _ => trailsAt_expect "(" trivial) fun _ => ?_
  refine trails_bind trails_advance fun _ => ?_
  refine trails_bind (trails_orMove trails_comparison Feed.trail_pastCondition) fun test => ?_
  refine trails_bind (fun _ => trailsAt_expect ")" trivial) fun _ => ?_
  exact trails_bind (fun _ => trailsAt_expect ";" trivial) fun _ => trails_pure _

/-- Reading an item of a loop body leaves a trail. -/
theorem trails_bodyItem : bodyItem.Trails := by
  intro f
  by_cases hstarts : startsAssignment f = true
  · exact trailsAt_congr (by rw [bodyItem, if_pos hstarts]) (trails_assignment f)
  · have hreject : bodyItem f = reject (.expected .bodyAssignment f.current.toLexeme) f := by
      rw [bodyItem, if_neg hstarts]
    exact trailsAt_congr hreject (trailsAt_reject ⟨trivial, .inl rfl⟩)

/-- The rounds of a loop body leave a trail. -/
theorem BodyRun.trail {st : Stretch} (h : BodyRun f st) : f.Trail st.notes st.feed := by
  induction h with
  | done _ => exact .stay _
  | @broken f _ _ => exact trails_bodyItem f
  | @item f rest _ _ _ _ ih => exact Feed.Trail.trans (trails_bodyItem f) (.step ih)
  | @stuck f _ _ _ =>
      have hitem := Feed.Trail.trans (trails_bodyItem f) (Feed.trail_advance _)
      rwa [Notes.append_none] at hitem

/-- Reading the items of a loop body leaves a trail. -/
theorem trails_items : items.Trails := fun f => (bodyRun_body f).trail

/-- Reading a body with its closing brace leaves a trail. -/
theorem trails_closedBody : closedBody.Trails := by
  rw [closedBody_eq]
  refine trails_bind trails_items fun ss => trails_current_bind fun f => ?_
  by_cases hbrace : (f.current.literal == "\x7d") = true
  · rw [if_pos hbrace]
    exact trails_pure ss f
  · rw [if_neg hbrace]
    exact trailsAt_reject ⟨trivial, .inr (.inr rfl)⟩

/-- Looking for the condition leaves a trail. -/
theorem trails_seekCondition : seekCondition.Trails := by
  refine trails_bind (trails_move (Feed.trail_skipTo "while")) fun _ => ?_
  refine trails_current_bind fun f => ?_
  by_cases hend : f.current.isEnd = true
  · rw [if_pos hend]
    exact trails_fail f
  · rw [if_neg hend]
    exact trails_pure _ f

/-- Reading a loop leaves a trail. -/
theorem trails_loop : loop.Trails := by
  refine trails_current_bind fun f => ?_
  refine trailsAt_bind (trailsAt_succeeds (trailsAt_expect "\x7b" trivial)) fun opened => ?_
  cases opened with
  | true =>
      refine trails_bind trails_advance fun _ => trails_bind trails_closedBody fun body => ?_
      refine trails_bind (fun _ => trailsAt_expect "while" trivial) fun _ => ?_
      exact trails_bind trails_condition fun test => trails_pure _
  | false =>
      refine trails_bind trails_seekCondition fun _ => ?_
      exact trails_bind trails_condition fun test => trails_pure _

/-- Reading a statement leaves a trail. -/
theorem trails_statement : statement.Trails := by
  intro f
  obtain ⟨-, heq⟩ | ⟨-, heq⟩ | ⟨-, -, ⟨-, heq⟩ | ⟨-, heq⟩⟩ := statement_cases f
  · exact trailsAt_congr heq (trails_declaration f)
  · exact trailsAt_congr heq (trails_loop f)
  · exact trailsAt_congr heq (trails_assignment f)
  · exact trailsAt_congr heq (trailsAt_reject rfl)

end Parse

end DoWhile
