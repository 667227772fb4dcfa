import DoWhile.Proofs.Parse.Recovery
import DoWhile.Proofs.Parse.Relabeling
import DoWhile.Proofs.Parse.Rounds

/-!
# Feeds with more tokens behind them

What a construct reads from a feed that ends in an end token, compared with what it reads when more
tokens stand behind (`Feed.extend`). A construct that ends in front of the last token does not look
behind it. A construct that is given up on the last token is given up there as well, or it goes on
behind and runs into what stands there (`Parse.Bounded`).

Whether reading goes on behind the last token is told by a token that no construct has a place for
(`Feed.strangeTail`): where an item of a body or a statement begins with it, a diagnostic stands at
its place (`Parse.Noticed`).
-/

set_option autoImplicit false

namespace DoWhile

/-! ## Feeds with more tokens behind them -/

namespace Feed

variable {f : Feed}

/-- The feed with more tokens behind its last one. -/
def extend (f : Feed) (ts : List Token) : Feed := { f with following := f.following ++ ts }

/-- More tokens behind the last one leave the current one. -/
@[simp] theorem current_extend (f : Feed) (ts : List Token) :
    (f.extend ts).current = f.current := rfl

/-- More tokens stand behind the following ones. -/
theorem following_extend (f : Feed) (ts : List Token) :
    (f.extend ts).following = f.following ++ ts := rfl

/-- In front of the last token, the next one is the same with more tokens behind. -/
theorem peek_extend (hne : f.following ≠ []) (ts : List Token) : (f.extend ts).peek = f.peek := by
  obtain ⟨current, following, held⟩ := f
  cases following with
  | nil => exact absurd rfl hne
  | cons u us => rfl

/-- In front of the last token, moving on is the same with more tokens behind. -/
theorem advance_extend (hne : f.following ≠ []) (ts : List Token) :
    (f.extend ts).advance = f.advance.extend ts := by
  obtain ⟨current, following, held⟩ := f
  cases following with
  | nil => exact absurd rfl hne
  | cons u us => cases held <;> rfl

/-- A search on a list that ends in an end token stops in front of what stands behind. -/
theorem seek_extend (w : String) (t : Token) (us ts : List Token)
    (hends : (us.getLastD t).isEnd = true) : seek w t (us ++ ts) = (seek w t us).extend ts := by
  induction us generalizing t with
  | nil =>
      rw [List.getLastD_nil] at hends
      cases ts with
      | nil => rfl
      | cons u ts =>
          have hstops : (t.isEnd || t.literal == w) = true := by rw [hends, Bool.true_or]
          exact if_pos hstops
  | cons u us ih =>
      rw [List.getLastD_cons] at hends
      rw [List.cons_append, seek, seek]
      split
      · rfl
      · exact ih u hends

/-- A search for a text ends at the same token with more tokens behind. -/
theorem Live.skipTo_extend (hf : f.Live) (w : String) (ts : List Token) :
    (f.extend ts).skipTo w = (f.skipTo w).extend ts := by
  obtain ⟨current, following, held⟩ := f
  obtain ⟨hfree, hends⟩ := hf
  dsimp only at hfree hends
  subst hfree
  exact seek_extend w current following ts hends

/-- A search for a text ends on a list that ends in an end token. -/
theorem Live.skipTo (hf : f.Live) (w : String) : (f.skipTo w).Live := (walk_skipTo w f).live hf

/-- A feed on its last token stands on an end token, which is neither a symbol nor a word. -/
theorem Live.peek_not_isMark (hf : f.Live) (hnil : f.following = []) (w : String) :
    f.peek.isMark w = false := by
  have hend := hf.ends
  rw [hnil, List.getLastD_nil] at hend
  rw [peek, hnil, List.headD_nil]
  by_contra hmark
  rw [Bool.not_eq_false] at hmark
  rw [Token.isEnd_of_isMark hmark] at hend
  exact absurd hend (by decide)

/-! ### A tail that no construct has a place for -/

/-- A token that belongs nowhere. -/
def strangeToken (p : Position) : Token := ⟨⟨.error, "@"⟩, p⟩

/-- The token that belongs nowhere, and the end token behind it. -/
def strangeTail (p : Position) : List Token := [strangeToken p, Token.endAt p]

/-- The feed on the token that belongs nowhere. -/
def strange (p : Position) : Feed := ⟨strangeToken p, [Token.endAt p], false⟩

/-- The token that belongs nowhere has an end token behind it. -/
theorem live_strange (p : Position) : (strange p).Live := ⟨rfl, rfl⟩

/-- With the strange tokens behind it, a list still ends in an end token. -/
theorem Live.extend_strangeTail (hf : f.Live) (p : Position) : (f.extend (strangeTail p)).Live := by
  refine ⟨hf.free, ?_⟩
  rw [following_extend, strangeTail, getLastD_append_cons]
  rfl

/-- The strange token is no symbol or word, so a feed in front of it sees no mark. -/
theorem peek_strangeTail_not_isMark (hnil : f.following = []) (p : Position) (w : String) :
    (f.extend (strangeTail p)).peek.isMark w = false := by
  rw [peek, following_extend, hnil]
  rfl

/-- Behind the last token of a list stands the strange one. -/
theorem advance_strangeTail (hf : f.held = false) (hnil : f.following = []) (p : Position) :
    (f.extend (strangeTail p)).advance = strange p := by
  obtain ⟨current, following, held⟩ := f
  obtain rfl : held = false := hf
  obtain rfl : following = [] := hnil
  rfl

/-- Moving past a condition stops in front of what stands behind the list, unless it stops on the
last token and a semicolon stands behind that. -/
theorem Live.pastCondition_extend (hf : f.Live) {ts : List Token}
    (h : f.pastCondition.following ≠ [] ∨ ∃ p, ts = strangeTail p) :
    (f.extend ts).pastCondition = f.pastCondition.extend ts := by
  have hskip := hf.skipTo_extend ")" ts
  by_cases hnil : (f.skipTo ")").following = []
  · have hpeek : (f.skipTo ")").peekIs ";" = false := (hf.skipTo ")").peek_not_isMark hnil ";"
    have hstay : f.pastCondition = f.skipTo ")" := by simp [pastCondition, hpeek]
    rw [hstay] at h ⊢
    obtain hne | ⟨p, rfl⟩ := h
    · exact absurd hnil hne
    · have hpeek' : ((f.skipTo ")").extend (strangeTail p)).peekIs ";" = false :=
        peek_strangeTail_not_isMark hnil p ";"
      simp [pastCondition, hskip, hpeek']
  · have hpeek : ((f.skipTo ")").extend ts).peekIs ";" = (f.skipTo ")").peekIs ";" := by
      rw [peekIs, peek_extend hnil, ← peekIs]
    unfold pastCondition
    dsimp only
    rw [hskip, current_extend, hpeek]
    split
    · exact advance_extend hnil ts
    · rfl

end Feed

/-- The outcome on a list with more tokens behind it. -/
def Outcome.extend {α : Type} (o : Outcome α) (ts : List Token) : Outcome α :=
  { o with feed := o.feed.extend ts }

/-- The row on a list with more tokens behind it. -/
def Stretch.extend (st : Stretch) (ts : List Token) : Stretch :=
  { st with feed := st.feed.extend ts }

namespace Parse

variable {α β : Type} {p : Parse α} {q : α → Parse β} {f g : Feed}

/-! ## Bounded parses -/

/-- One of the diagnostics stands at the place. -/
def Noticed (ds : List Diagnostic) (place : Position) : Prop := ∃ d ∈ ds, d.position = place

/-- A noticed place stays noticed with more diagnostics behind. -/
theorem Noticed.append_left {ds : List Diagnostic} {place : Position} (h : Noticed ds place)
    (es : List Diagnostic) : Noticed (ds ++ es) place := by
  obtain ⟨d, hd, hplace⟩ := h
  exact ⟨d, List.mem_append_left _ hd, hplace⟩

/-- A noticed place stays noticed with more diagnostics in front. -/
theorem Noticed.append_right {ds : List Diagnostic} {place : Position} (h : Noticed ds place)
    (es : List Diagnostic) : Noticed (es ++ ds) place := by
  obtain ⟨d, hd, hplace⟩ := h
  exact ⟨d, List.mem_append_right _ hd, hplace⟩

/-- What the first of two parses notices is noticed by both together. -/
theorem Noticed.bind {place : Position} (h : Noticed (p f).notes.errors place) :
    Noticed ((p >>= q) f).notes.errors place := by
  cases hvalue : (p f).value with
  | none =>
      rw [bind_of_none hvalue]
      exact h
  | some a =>
      rw [bind_of_some hvalue, Notes.errors_append]
      exact h.append_left _

/-- The outcome is a failure at the feed, or has a diagnostic at the place. -/
def StopsOrNotices (o : Outcome α) (g : Feed) (place : Position) : Prop :=
  (o.value = none ∧ o.feed = g) ∨ Noticed o.notes.errors place

/-- How a parse reads at a feed that ends in an end token: it ends in front of the last token, and
does the same whatever stands behind, or it is given up on the last token, and a strange token
behind that is left alone or noticed. -/
inductive Bounded (p : Parse α) (f : Feed) : Prop
  | inside (hleft : (p f).feed.following ≠ []) (hsame : ∀ ts, p (f.extend ts) = (p f).extend ts)
  | cut (hleft : (p f).feed.following = []) (hnone : (p f).value = none)
      (hstops : ∀ place, StopsOrNotices (p (f.extend (Feed.strangeTail place)))
        ((p f).feed.extend (Feed.strangeTail place)) place)

/-- A bounded parse that ends in front of the last token does the same with more tokens behind. -/
theorem Bounded.extend_eq (hp : p.Bounded f) (hleft : (p f).feed.following ≠ [])
    (ts : List Token) : p (f.extend ts) = (p f).extend ts := by
  cases hp with
  | inside _ hsame => exact hsame ts
  | cut hnil _ _ => exact absurd hnil hleft

/-- A parse is bounded if, whatever stands behind, its outcome is that of a bounded one. -/
theorem Bounded.of_eq {p' : Parse α} {f' : Feed} (hp : p'.Bounded f') (heq : p f = p' f')
    (hext : ∀ ts, p (f.extend ts) = p' (f'.extend ts)) : p.Bounded f := by
  cases hp with
  | inside hleft hsame =>
      exact .inside (by rwa [heq]) fun ts => by rw [hext, heq, hsame]
  | cut hleft hnone hstops =>
      refine .cut (by rwa [heq]) (by rw [heq, hnone]) fun place => ?_
      rw [hext, heq]
      exact hstops place

/-- A parse that fails where it stands leaves it to the feed whether it is cut. -/
theorem bounded_of_stays (hstays : ∀ ts, p (f.extend ts) = ⟨none, f.extend ts, (p f).notes⟩)
    (hp : p f = ⟨none, f, (p f).notes⟩) : p.Bounded f := by
  have hfeed : (p f).feed = f := by rw [hp]
  by_cases hnil : f.following = []
  · refine .cut (by rw [hfeed, hnil]) (by rw [hp]) fun place => .inl ?_
    rw [hstays, hfeed]
    exact ⟨rfl, rfl⟩
  · refine .inside (by rwa [hfeed]) fun ts => ?_
    rw [hstays, hp]
    rfl

/-- A rejection is bounded. -/
theorem bounded_reject (c : Complaint) (f : Feed) : (reject c : Parse α).Bounded f :=
  bounded_of_stays (fun _ => rfl) rfl

/-- Failing is bounded. -/
theorem bounded_fail (f : Feed) : (fail : Parse α).Bounded f := bounded_of_stays (fun _ => rfl) rfl

/-- Giving a value in front of the last token is bounded. -/
theorem bounded_pure (a : α) (hne : f.following ≠ []) : (pure a : Parse α).Bounded f :=
  .inside hne fun _ => rfl

/-- A complaint in front of the last token is bounded. -/
theorem bounded_complain (c : Complaint) (hne : f.following ≠ []) : (complain c).Bounded f :=
  .inside hne fun _ => rfl

/-- What is read behind a value begins in front of the last token. -/
theorem bounded_bind (hp : p.Bounded f)
    (hq : ∀ a g, p.Gives f a g → g.following ≠ [] → (q a).Bounded g) : (p >>= q).Bounded f := by
  cases hp with
  | inside hleft hsame =>
      cases hvalue : (p f).value with
      | none =>
          have hbind := bind_of_none (q := q) hvalue
          refine .inside (by rwa [hbind]) fun ts => ?_
          rw [hbind, bind_of_none (by rw [hsame]; exact hvalue), hsame]
          rfl
      | some a =>
          have hbind := bind_of_some (q := q) hvalue
          have hlong : ∀ ts, (p >>= q) (f.extend ts) =
              ⟨(q a ((p f).feed.extend ts)).value, (q a ((p f).feed.extend ts)).feed,
                (p f).notes ++ (q a ((p f).feed.extend ts)).notes⟩ := by
            intro ts
            rw [bind_of_some (a := a) (by rw [hsame]; exact hvalue), hsame]
            rfl
          cases hq a (p f).feed ⟨hvalue, rfl⟩ hleft with
          | inside hleft' hsame' =>
              refine .inside (by rwa [hbind]) fun ts => ?_
              rw [hlong, hbind, hsame']
              rfl
          | cut hnil hnone hstops =>
              refine .cut (by rwa [hbind]) (by rwa [hbind]) fun place => ?_
              rw [hlong, hbind]
              exact (hstops place).imp id fun h => h.append_right _
  | cut hnil hnone hstops =>
      have hbind := bind_of_none (q := q) hnone
      refine .cut (by rwa [hbind]) (by rw [hbind]) fun place => ?_
      obtain ⟨hvalue, hfeed⟩ | hnoticed := hstops place
      · rw [hbind, bind_of_none hvalue]
        exact .inl ⟨rfl, hfeed⟩
      · exact .inr hnoticed.bind

/-- A parse that looks at the current token is bounded if it is so for that token. -/
theorem Bounded.current_bind {r : Token → Parse β} (h : (r f.current).Bounded f) :
    (current >>= r).Bounded f := h.of_eq rfl fun _ => rfl

/-- A parse that looks at the next token is bounded if it is so for that token. -/
theorem Bounded.peek_bind {r : Token → Parse β} (hne : f.following ≠ [])
    (h : (r f.peek).Bounded f) : (peek >>= r).Bounded f := by
  refine h.of_eq rfl fun ts => ?_
  change r (f.extend ts).peek (f.extend ts) = r f.peek (f.extend ts)
  rw [Feed.peek_extend hne]

/-- A parse that moves on is bounded if it is so one token further on. -/
theorem Bounded.advance_bind {r : Unit → Parse β} (hne : f.following ≠ [])
    (h : (r ()).Bounded f.advance) : (advance >>= r).Bounded f := by
  refine h.of_eq rfl fun ts => ?_
  change r () (f.extend ts).advance = r () (f.advance.extend ts)
  rw [Feed.advance_extend hne]

/-- Expecting a token that is not the end of the input is bounded. -/
theorem bounded_expectThat {test : Token → Bool} (wanted : Expectation) (hf : f.Live)
    (hne : f.following ≠ []) (htest : ∀ t : Token, test t = true → t.isEnd = false) :
    (expectThat test wanted).Bounded f := by
  by_cases hpeek : test f.peek = true
  · have heq : expectThat test wanted f = advance f := by rw [expectThat, if_pos hpeek]
    refine .inside ?_ fun ts => ?_
    · rw [heq]
      exact hf.following_advance_ne_nil (htest _ hpeek)
    · rw [heq, expectThat, Feed.peek_extend hne, if_pos hpeek, advance, move,
        Feed.advance_extend hne]
      rfl
  · refine (bounded_reject (.expected wanted f.peek.toLexeme) f).of_eq ?_ fun ts => ?_
    · rw [expectThat, if_neg hpeek]
    · rw [expectThat, Feed.peek_extend hne, if_neg hpeek]

/-- Expecting a text is bounded. -/
theorem bounded_expect (w : String) (wanted : Expectation) (hf : f.Live)
    (hne : f.following ≠ []) : (expect w wanted).Bounded f :=
  bounded_expectThat wanted hf hne fun _ hmark => Token.isEnd_of_isMark hmark

/-- A parse that fails is followed by the move. -/
theorem orMove_of_none {m : Feed → Feed} (hnone : (p f).value = none) :
    p.orMove m f = ⟨none, m (p f).feed, (p f).notes⟩ := by
  simp only [orMove, hnone]

/-- A parse that yields is not followed by the move. -/
theorem orMove_of_some {m : Feed → Feed} {a : α} (hsome : (p f).value = some a) :
    p.orMove m f = p f := by
  simp only [orMove, hsome]
  rw [← hsome]

/-- The move behind a failure leaves the notes alone. -/
theorem notes_orMove (p : Parse α) (m : Feed → Feed) (f : Feed) :
    (p.orMove m f).notes = (p f).notes := by
  cases hvalue : (p f).value with
  | none => rw [orMove_of_none hvalue]
  | some a => rw [orMove_of_some hvalue]

/-- A bounded parse stays bounded if its failure moves past the condition. -/
theorem bounded_orMove_pastCondition (hp : p.Bounded f) (hlive : (p f).feed.Live) :
    (p.orMove Feed.pastCondition).Bounded f := by
  cases hp with
  | inside hleft hsame =>
      cases hvalue : (p f).value with
      | some a =>
          have heq := orMove_of_some (m := Feed.pastCondition) hvalue
          refine .inside (by rwa [heq]) fun ts => ?_
          rw [heq, orMove_of_some (by rw [hsame]; exact hvalue), hsame]
      | none =>
          have heq := orMove_of_none (m := Feed.pastCondition) hvalue
          have hlong : ∀ ts, p.orMove Feed.pastCondition (f.extend ts) =
              ⟨none, ((p f).feed.extend ts).pastCondition, (p f).notes⟩ := by
            intro ts
            rw [orMove_of_none (by rw [hsame]; exact hvalue), hsame]
            rfl
          by_cases hnil : (p f).feed.pastCondition.following = []
          · refine .cut (by rwa [heq]) (by rw [heq]) fun place => .inl ?_
            rw [hlong, heq, hlive.pastCondition_extend (.inr ⟨place, rfl⟩)]
            exact ⟨rfl, rfl⟩
          · refine .inside (by rwa [heq]) fun ts => ?_
            rw [hlong, heq, hlive.pastCondition_extend (.inl hnil)]
            rfl
  | cut hnil hnone hstops =>
      have heq := orMove_of_none (m := Feed.pastCondition) hnone
      have hpast := (Feed.trail_pastCondition (p f).feed).walk.following_eq_nil hnil
      refine .cut (by rwa [heq]) (by rw [heq]) fun place => ?_
      obtain ⟨hvalue, hfeed⟩ | hnoticed := hstops place
      · rw [heq, orMove_of_none hvalue, hfeed, hlive.pastCondition_extend (.inr ⟨place, rfl⟩)]
        exact .inl ⟨rfl, rfl⟩
      · refine .inr ?_
        rw [notes_orMove]
        exact hnoticed

/-- A parse that walks leaves a list that ends in an end token. -/
theorem Gives.live {a : α} (h : p.Gives f a g) (hp : p.Walks) (hf : f.Live) : g.Live := by
  rw [← h.feed]
  exact (hp f).live hf

/-! ## The grammar -/

/-- Reading an operand is bounded. -/
theorem bounded_operand (hf : f.Live) : operand.Bounded f := by
  refine .current_bind ?_
  cases hkind : f.current.kind with
  | identifier => exact bounded_pure _ (hf.following_ne_nil (by rw [Token.isEnd, hkind]; rfl))
  | number => exact bounded_pure _ (hf.following_ne_nil (by rw [Token.isEnd, hkind]; rfl))
  | reserved => exact bounded_reject _ f
  | symbol => exact bounded_reject _ f
  | endOfInput => exact bounded_reject _ f
  | error => exact bounded_reject _ f

/-- Reading an expression is bounded. -/
theorem bounded_expression (hf : f.Live) : expression.Bounded f := by
  refine bounded_bind (bounded_operand hf) fun left g hleft hne => .peek_bind hne ?_
  have hg := hleft.live walks_operand hf
  by_cases hsign : isArithmetic g.peek.toLexeme = true
  · rw [if_pos hsign]
    have hne' := hg.following_advance_ne_nil (Token.isEnd_of_isArithmetic hsign)
    refine .advance_bind hne (.current_bind (.advance_bind hne' ?_))
    exact bounded_bind (bounded_operand hg.advance.advance) fun right h _ hne => bounded_pure _ hne
  · rw [if_neg hsign]
    exact bounded_pure left hne

/-- Reading a comparison is bounded. -/
theorem bounded_comparison (hf : f.Live) : comparison.Bounded f := by
  refine bounded_bind (bounded_operand hf) fun left g hleft hne => ?_
  have hg := hleft.live walks_operand hf
  refine bounded_bind (bounded_expect _ _ hg hne) fun _ h hsign hne => .advance_bind hne ?_
  have hh := hsign.live (walks_expect _ _) hg
  exact bounded_bind (bounded_operand hh.advance) fun right k _ hne => bounded_pure _ hne

/-- The value of a statement and the semicolon behind it. -/
theorem bounded_value (k : Expr → Stmt) (wanted : Expectation) (hf : f.Live) :
    (expression >>= fun value => expect ";" wanted >>= fun _ => pure (k value)).Bounded f := by
  refine bounded_bind (bounded_expression hf) fun value g hvalue hne => ?_
  have hg := hvalue.live walks_expression hf
  exact bounded_bind (bounded_expect _ _ hg hne) fun _ h _ hne => bounded_pure _ hne

/-- Reading a declaration is bounded in front of the last token. -/
theorem bounded_declaration (hf : f.Live) (hne : f.following ≠ []) : declaration.Bounded f := by
  refine .current_bind ?_
  have hkind : (expectKind .identifier .variableName).Bounded f := by
    refine bounded_expectThat _ hf hne fun t ht => Token.isEnd_of_kind (by simpa using ht)
  refine bounded_bind hkind fun _ g hname hne => .current_bind ?_
  have hg := hname.live (walks_expectKind _ _) hf
  refine bounded_bind (bounded_expect _ _ hg hne) fun _ h hequals hne => .advance_bind hne ?_
  exact bounded_value _ _ (hequals.live (walks_expect _ _) hg).advance

/-- Reading an assignment is bounded in front of the last token. -/
theorem bounded_assignment (hf : f.Live) (hne : f.following ≠ []) : assignment.Bounded f := by
  refine .current_bind ?_
  refine bounded_bind (bounded_expect _ _ hf hne) fun _ g hequals hne => .advance_bind hne ?_
  exact bounded_value _ _ (hequals.live (walks_expect _ _) hf).advance

/-- Reading a condition is bounded in front of the last token. -/
theorem bounded_condition (hf : f.Live) (hne : f.following ≠ []) : condition.Bounded f := by
  refine bounded_bind (bounded_expect _ _ hf hne) fun _ g hopening hne => .advance_bind hne ?_
  have hg := (hopening.live (walks_expect _ _) hf).advance
  have hwalks : (comparison.orMove Feed.pastCondition).Walks :=
    (trails_orMove trails_comparison Feed.trail_pastCondition).walks
  have htest := bounded_orMove_pastCondition (bounded_comparison hg)
    ((walks_comparison g.advance).live hg)
  refine bounded_bind htest fun test h htest hne => ?_
  have hh := htest.live hwalks hg
  refine bounded_bind (bounded_expect _ _ hh hne) fun _ k hclosing hne => ?_
  have hk := hclosing.live (walks_expect _ _) hh
  exact bounded_bind (bounded_expect _ _ hk hne) fun _ l _ hne => bounded_pure _ hne

/-- In front of the last token, whether an assignment starts is the same with more tokens behind. -/
theorem startsAssignment_extend (hne : f.following ≠ []) (ts : List Token) :
    startsAssignment (f.extend ts) = startsAssignment f := by
  rw [startsAssignment, startsAssignment, Feed.peekIs, Feed.peekIs, Feed.peek_extend hne,
    Feed.current_extend]

/-- Reading an item of a loop body is bounded in front of the last token. -/
theorem bounded_bodyItem (hf : f.Live) (hne : f.following ≠ []) : bodyItem.Bounded f := by
  by_cases hstarts : startsAssignment f = true
  · refine (bounded_assignment hf hne).of_eq (if_pos hstarts) fun ts => ?_
    rw [bodyItem, startsAssignment_extend hne, if_pos hstarts]
  · refine (bounded_reject (.expected .bodyAssignment f.current.toLexeme) f).of_eq (if_neg hstarts)
      fun ts => ?_
    rw [bodyItem, startsAssignment_extend hne, if_neg hstarts]
    rfl

/-! ### Loop bodies -/

/-- Tokens follow wherever a loop body goes on. -/
theorem following_ne_nil_of_endsBody (hf : f.Live) (hends : endsBody f = false) :
    f.following ≠ [] := hf.following_ne_nil (isEnd_of_endsBody hends)

/-- A body that ends in front of the last token is read the same whatever stands behind. -/
theorem BodyRun.extend {st : Stretch} (h : BodyRun f st) (hf : f.Live)
    (hleft : st.feed.following ≠ []) (ts : List Token) :
    BodyRun (f.extend ts) (st.extend ts) := by
  induction h with
  | done hends => exact .done hends
  | @broken f hends hbreaks =>
      have hitem := (bounded_bodyItem hf (following_ne_nil_of_endsBody hf hends)).extend_eq hleft ts
      have hrun := BodyRun.broken (f := f.extend ts) hends (by rw [hitem]; exact hbreaks)
      rw [hitem] at hrun
      exact hrun
  | @item f rest hends hbreaks hlt hrest ih =>
      have hlive := ((walks_bodyItem f).live hf).advance
      -- the rest of the body is read behind the item, so the item ends in front of the last token
      have hne : (bodyItem f).feed.following ≠ [] := by
        intro hnil
        have hwalk := hrest.walk
        rw [Feed.advance_eq_self hnil] at hwalk
        exact hleft (hwalk.following_eq_nil hnil)
      have hitem := (bounded_bodyItem hf (following_ne_nil_of_endsBody hf hends)).extend_eq hne ts
      have hnext : (bodyItem (f.extend ts)).feed.advance = (bodyItem f).feed.advance.extend ts := by
        rw [hitem]
        exact Feed.advance_extend hne ts
      have hrun := BodyRun.item (f := f.extend ts) hends (by rw [hitem]; exact hbreaks)
        (by simpa [hnext, Feed.following_extend] using hlt) (by rw [hnext]; exact ih hlive hleft)
      rw [hitem] at hrun
      exact hrun
  | @stuck f hends hbreaks hlt =>
      exact absurd (hf.advance_lt (isEnd_of_endsBody hends) (walks_bodyItem f)) hlt

/-- A loop body that ends in front of the last token is the same with more tokens behind. -/
theorem body_extend (hf : f.Live) (hleft : (body f).feed.following ≠ []) (ts : List Token) :
    body (f.extend ts) = (body f).extend ts :=
  (bodyRun_body _).unique ((bodyRun_body f).extend hf hleft ts)

/-- A body notes what its first item notes. -/
theorem BodyRun.noticed {st : Stretch} {place : Position} (h : BodyRun f st)
    (hends : endsBody f = false) (hitem : Noticed (bodyItem f).notes.errors place) :
    Noticed st.notes.errors place := by
  cases h with
  | done hdone => rw [hends] at hdone; exact absurd hdone (by decide)
  | broken _ _ => exact hitem
  | item _ _ _ _ => exact hitem.append_left _
  | stuck _ _ _ => exact hitem

/-- A body that begins with a strange token notices it. -/
theorem BodyRun.notices_strange {st : Stretch} {place : Position}
    (h : BodyRun (Feed.strange place) st) : Noticed st.notes.errors place :=
  h.noticed rfl ⟨_, List.mem_cons_self, rfl⟩

/-- A body that ends on the last token ends there as well in front of a strange token, or goes on
and notices it. -/
theorem BodyRun.cut {st st' : Stretch} {place : Position} (h : BodyRun f st) (hf : f.Live)
    (hnil : st.feed.following = [])
    (h' : BodyRun (f.extend (Feed.strangeTail place)) st') :
    st'.feed = st.feed.extend (Feed.strangeTail place) ∨ Noticed st'.notes.errors place := by
  induction h generalizing st' with
  | @done f hends =>
      rw [h'.eq_of_endsBody hends]
      exact .inl rfl
  | @broken f hends hbreaks =>
      cases bounded_bodyItem hf (following_ne_nil_of_endsBody hf hends) with
      | inside hleft _ => exact absurd hnil hleft
      | cut _ _ hstops =>
          obtain ⟨hnone, hfeed⟩ | hnoticed := hstops place
          · have hclosing : (bodyItem f).feed.current.literal = "\x7d" := by
              rw [breaksOff, Bool.and_eq_true, beq_iff_eq] at hbreaks
              exact hbreaks.2
            exact .inl (h'.ends_of_breaksOff hends ⟨hnone, hfeed, rfl⟩ hclosing).feed
          · exact .inr (h'.noticed hends hnoticed)
  | @item f rest hends hbreaks hlt hrest ih =>
      have hlong := hf.extend_strangeTail place
      have hlive := (walks_bodyItem f).live hf
      cases bounded_bodyItem hf (following_ne_nil_of_endsBody hf hends) with
      | inside hleft hsame =>
          have hitem := hsame (Feed.strangeTail place)
          obtain ⟨rest', hrest', rfl⟩ := h'.exists_rest hlong hends (by rw [hitem]; exact hbreaks)
          have hnext : (bodyItem (f.extend (Feed.strangeTail place))).feed.advance =
              (bodyItem f).feed.advance.extend (Feed.strangeTail place) := by
            rw [hitem]
            exact Feed.advance_extend hleft _
          rw [hnext] at hrest'
          exact (ih hlive.advance hnil hrest').imp id fun hnoticed => hnoticed.append_right _
      | cut hleft hnone hstops =>
          obtain ⟨hnone', hfeed⟩ | hnoticed := hstops place
          · -- the next item begins with the strange token
            have hgoes : breaksOff (bodyItem (f.extend (Feed.strangeTail place))) = false := by
              rw [← hbreaks, breaksOff, breaksOff, hnone, hnone', hfeed, Feed.current_extend]
            obtain ⟨rest', hrest', rfl⟩ := h'.exists_rest hlong hends hgoes
            rw [hfeed, Feed.advance_strangeTail hlive.free hleft] at hrest'
            exact .inr (hrest'.notices_strange.append_right _)
          · exact .inr (h'.noticed hends hnoticed)
  | @stuck f hends hbreaks hlt =>
      exact absurd (hf.advance_lt (isEnd_of_endsBody hends) (walks_bodyItem f)) hlt

/-! ### Loops -/

/-- A body in front of anything but the word `while` leaves its loop unread. -/
theorem fails_braced (first : Token) (hword : (body f).feed.peek.isMark "while" = false) :
    (braced first f).value = none ∧ (braced first f).feed = (body f).feed := by
  by_cases hclosing : (body f).feed.current.literal = "\x7d"
  · have hclosed := ends_closedBody (f := f) ⟨rfl, rfl, rfl⟩ hclosing
    have hends := hclosed.bind (q := fun ss => expect "while" .whileAfterBody >>= fun _ =>
      condition >>= fun test => pure (Stmt.loop ss test first.position))
      (ends_expect_of_not hword).bind_none
    exact ⟨hends.value, hends.feed⟩
  · have hends := (ends_closedBody_of_open hclosing).bind_none
      (q := fun ss => expect "while" .whileAfterBody >>= fun _ =>
        condition >>= fun test => pure (Stmt.loop ss test first.position))
    exact ⟨hends.value, hends.feed⟩

/-- What a body notices, its loop notices. -/
theorem noticed_braced (first : Token) {place : Position}
    (h : Noticed (body f).notes.errors place) : Noticed (braced first f).notes.errors place := by
  have hitems : Noticed (items f).notes.errors place := h
  have hclosed : Noticed (closedBody f).notes.errors place := by
    rw [closedBody_eq]
    exact hitems.bind
  exact hclosed.bind

/-- Reading a body with its closing brace is bounded if the body ends in front of the last token. -/
theorem bounded_closedBody (hf : f.Live) (hleft : (body f).feed.following ≠ []) :
    closedBody.Bounded f := by
  have hitems : items.Bounded f := by
    refine .inside hleft fun ts => ?_
    rw [items, body_extend hf hleft]
    rfl
  rw [closedBody_eq]
  refine bounded_bind hitems fun ss g _ hne => .current_bind ?_
  split
  · exact bounded_pure ss hne
  · exact bounded_reject _ g

/-- Reading a loop behind its opening brace is bounded. -/
theorem bounded_braced (first : Token) (hf : f.Live) : (braced first).Bounded f := by
  by_cases hleft : (body f).feed.following = []
  · have hbody := (bodyRun_body f).walk.live hf
    obtain ⟨hnone, hfeed⟩ := fails_braced first (hbody.peek_not_isMark hleft "while")
    refine .cut (by rwa [hfeed]) hnone fun place => ?_
    rw [hfeed]
    obtain hstops | hnoticed := (bodyRun_body f).cut hf hleft
      (bodyRun_body (f.extend (Feed.strangeTail place)))
    · have hword := Feed.peek_strangeTail_not_isMark hleft place "while"
      rw [← hstops] at hword
      rw [← hstops]
      exact .inl (fails_braced first hword)
    · exact .inr (noticed_braced first hnoticed)
  · refine bounded_bind (bounded_closedBody hf hleft) fun ss g hclosed hne => ?_
    have hg := hclosed.live walks_closedBody hf
    refine bounded_bind (bounded_expect _ _ hg hne) fun _ h hword hne => ?_
    have hh := hword.live (walks_expect _ _) hg
    exact bounded_bind (bounded_condition hh hne) fun test k _ hne => bounded_pure _ hne

/-- Looking for the condition is bounded. -/
theorem bounded_seekCondition (hf : f.Live) : seekCondition.Bounded f := by
  have hstop : (current >>= fun t => if t.isEnd = true then fail else pure () :
      Parse Unit).Bounded (f.skipTo "while") := by
    refine .current_bind ?_
    by_cases hend : (f.skipTo "while").current.isEnd = true
    · rw [if_pos hend]
      exact bounded_fail _
    · rw [if_neg hend]
      exact bounded_pure () ((hf.skipTo "while").following_ne_nil (by simpa using hend))
  refine hstop.of_eq rfl fun ts => ?_
  rw [← hf.skipTo_extend]
  rfl

/-- Reading a loop that lacks its opening brace is bounded. -/
theorem bounded_bare (first : Token) (hf : f.Live) : (bare first).Bounded f := by
  refine bounded_bind (bounded_seekCondition hf) fun _ g hseek hne => ?_
  have hg := hseek.live walks_seekCondition hf
  exact bounded_bind (bounded_condition hg hne) fun test h _ hne => bounded_pure _ hne

/-- Reading a loop is bounded in front of the last token. -/
theorem bounded_loop (hf : f.Live) (hne : f.following ≠ []) : loop.Bounded f := by
  by_cases hopening : f.peek.isMark "\x7b" = true
  · have hne' := hf.following_advance_ne_nil (Token.isEnd_of_isMark hopening)
    refine (bounded_braced f.current hf.advance.advance).of_eq (loop_of_opening hopening)
      fun ts => ?_
    rw [loop_of_opening (by rw [Feed.peek_extend hne, hopening]), Feed.advance_extend hne,
      Feed.advance_extend hne', Feed.current_extend]
  · have hopening : f.peek.isMark "\x7b" = false := by simpa using hopening
    -- the missing brace is complained of, and then the loop is read without its body
    have hbare := bounded_bind
      (bounded_complain (.expected .openingBrace f.peek.toLexeme) hne)
      (q := fun _ => bare f.current) fun _ g hgives _ => bounded_bare f.current (hgives.feed ▸ hf)
    refine hbare.of_eq (loop_of_no_opening hopening) fun ts => ?_
    rw [loop_of_no_opening (by rw [Feed.peek_extend hne, hopening]), Feed.peek_extend hne]
    rfl

/-- Reading a statement is bounded if the list is not at its end. -/
theorem bounded_statement (hf : f.Live) (hend : f.atEnd = false) : statement.Bounded f := by
  have hne := hf.following_ne_nil hend
  obtain ⟨hint, heq⟩ | ⟨hdo, heq⟩ | ⟨hint, hdo, ⟨hstarts, heq⟩ | ⟨hstarts, heq⟩⟩ :=
    statement_cases f
  · exact (bounded_declaration hf hne).of_eq heq fun ts => statement_of_int hint
  · exact (bounded_loop hf hne).of_eq heq fun ts => statement_of_do hdo
  · refine (bounded_assignment hf hne).of_eq heq fun ts => ?_
    exact statement_of_assignment hint hdo (by rw [startsAssignment_extend hne, hstarts])
  · refine (bounded_reject (.unexpected f.current.toLexeme) f).of_eq heq fun ts => ?_
    exact statement_of_stray hint hdo (by rw [startsAssignment_extend hne, hstarts])

end Parse

end DoWhile
