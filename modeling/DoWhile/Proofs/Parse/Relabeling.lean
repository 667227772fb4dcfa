import DoWhile.Proofs.Parse.Recovery
import DoWhile.Proofs.Parse.Rounds
import DoWhile.Proofs.Program.Relabeling

/-!
# Parsing and relabeling

Parsing commutes with relabeling (`parse_relabel`): the parse of relabeled tokens is the relabeled
parse, in its statements and in its diagnostics, whatever errors the tokens have. Places are never
looked at; names are looked at only where a statement, a condition or the end of a loop body is told
by the text of a token, whatever its kind. A relabeling is steady on tokens if no name of theirs
becomes such a text or ceases to be one (`Token.Steady`).

The proof follows the grammar. `Parse.Natural` says of a parse that it commutes with relabeling at a
feed; it holds of the combinators, is kept by sequencing, and so holds of every construct.
-/

set_option autoImplicit false

namespace DoWhile

variable (r : Relabeling)

/-! ## Steady relabelings -/

/-- The texts by which reading is guided without regard to the kind of their token. -/
def guideWords : List String := ["int", "do", "while", "\x7d", ")"]

/-- If the token is a name, the relabeling makes it a guide word just if it is that word. -/
def Token.Steady (t : Token) : Prop :=
  t.kind = .identifier → ∀ w ∈ guideWords, r.name t.literal = w ↔ t.literal = w

/-- Moving tokens is steady: it keeps all names. -/
theorem Token.steady_moving (place : Position → Position) (t : Token) :
    t.Steady (.moving place) := by
  intro _ w _
  rfl

variable {r}

/-- A steady token has the text of a guide word after relabeling exactly if it had it before. -/
theorem Token.Steady.literal_iff {t : Token} (ht : t.Steady r) {w : String}
    (hw : w ∈ guideWords) : (t.relabel r).literal = w ↔ t.literal = w := by
  rw [toLexeme_relabel]
  by_cases hkind : t.kind = .identifier
  · rw [Lexeme.relabel_of_identifier hkind]
    exact ht hkind w hw
  · rw [Lexeme.relabel_of_ne hkind]

/-- Testing a steady token for a guide word is not affected by relabeling. -/
theorem Token.Steady.literal_beq {t : Token} (ht : t.Steady r) {w : String}
    (hw : w ∈ guideWords) : ((t.relabel r).literal == w) = (t.literal == w) := by
  rw [Bool.eq_iff_iff, beq_iff_eq, beq_iff_eq, ht.literal_iff hw]

/-! ## Feeds -/

namespace Feed

variable (r) in

/-- The feed with all its tokens relabeled. -/
def relabel (f : Feed) : Feed := ⟨f.current.relabel r, f.following.map (Token.relabel r), f.held⟩

variable (r) in
/-- A free feed on whose tokens the relabeling is steady. -/
structure Steady (f : Feed) : Prop where
  free : f.held = false
  tokens : ∀ t ∈ f.current :: f.following, t.Steady r

variable {f g : Feed}

/-- The current token of a relabeled feed is the current token, relabeled. -/
@[simp] theorem current_relabel : (f.relabel r).current = f.current.relabel r := rfl

/-- The next token of a relabeled feed is the next token, relabeled. -/
@[simp] theorem peek_relabel : (f.relabel r).peek = f.peek.relabel r := by
  obtain ⟨current, following, held⟩ := f
  cases following <;> rfl

/-- Relabeling does not change whether a feed is at its end. -/
@[simp] theorem atEnd_relabel : (f.relabel r).atEnd = f.atEnd := by
  unfold atEnd
  rw [current_relabel, Token.isEnd_relabel]

/-- Relabeling does not change whether the next token is a given mark. -/
@[simp] theorem peekIs_relabel (w : String) : (f.relabel r).peekIs w = f.peekIs w := by
  unfold peekIs
  rw [peek_relabel, Token.toLexeme_relabel, Lexeme.isMark_relabel]

/-- Relabeling keeps the number of tokens. -/
@[simp] theorem length_following_relabel :
    (f.relabel r).following.length = f.following.length := by
  unfold relabel
  rw [List.length_map]

/-- Moving on and relabeling can be done in either order. -/
@[simp] theorem advance_relabel : (f.relabel r).advance = f.advance.relabel r := by
  obtain ⟨current, following, held⟩ := f
  cases held with
  | true => rfl
  | false => cases following <;> rfl

/-- Relabeling is steady on a feed after a walk if it was so before. -/
theorem Steady.of_walk {ds : List Diagnostic} (hf : f.Steady r) (h : f.Walk ds g) :
    g.Steady r := by
  obtain ⟨us, hmoves, -⟩ := h.exists_moves
  obtain ⟨passed, -, hpasses⟩ := hmoves.exists_passes
  constructor
  · rw [hmoves.held, hf.free]
  · intro t ht
    apply hf.tokens
    rw [hpasses.tokens]
    exact List.mem_append_right passed ht

/-- Relabeling is steady on a feed that has moved on. -/
theorem Steady.advance (hf : f.Steady r) : f.advance.Steady r := hf.of_walk (walk_advance f)

/-- Relabeling is steady on the current token. -/
theorem Steady.current (hf : f.Steady r) : f.current.Steady r :=
  hf.tokens f.current List.mem_cons_self

/-- A search for a guide word ends at the same token after relabeling. -/
theorem seek_relabel {w : String} (hw : w ∈ guideWords) {t : Token} {ts : List Token}
    (hsteady : ∀ u ∈ t :: ts, u.Steady r) :
    seek w (t.relabel r) (ts.map (Token.relabel r)) = (seek w t ts).relabel r := by
  induction ts generalizing t with
  | nil => rfl
  | cons u us ih =>
      obtain ⟨ht, hrest⟩ := List.forall_mem_cons.mp hsteady
      rw [List.map_cons, seek, seek, Token.isEnd_relabel, ht.literal_beq hw, ih hrest]
      split <;> rfl

/-- A feed that skips to a guide word skips to the same token after relabeling. -/
theorem Steady.skipTo_relabel (hf : f.Steady r) {w : String} (hw : w ∈ guideWords) :
    (f.relabel r).skipTo w = (f.skipTo w).relabel r := by
  obtain ⟨current, following, held⟩ := f
  obtain rfl : held = false := hf.free
  exact seek_relabel hw hf.tokens

/-- A feed that moves past a condition moves past the same one after relabeling. -/
theorem Steady.pastCondition_relabel (hf : f.Steady r) :
    (f.relabel r).pastCondition = f.pastCondition.relabel r := by
  have hskipped := hf.of_walk (walk_skipTo ")" f)
  have hparenthesis := hskipped.current.literal_beq (w := ")") (by decide)
  unfold pastCondition
  dsimp only
  rw [hf.skipTo_relabel (by decide), current_relabel, hparenthesis, peekIs_relabel,
    advance_relabel]
  split <;> rfl

end Feed

/-! ## Outcomes -/

variable (r) in

/-- The notes with all places and names in them relabeled. -/
def Notes.relabel (n : Notes) : Notes :=
  ⟨n.errors.map (Diagnostic.relabel r), n.log.map (Event.relabel r)⟩

/-- Notes that are put together are relabeled one by one. -/
@[simp] theorem Notes.relabel_append (m n : Notes) :
    (m ++ n).relabel r = m.relabel r ++ n.relabel r := by
  unfold relabel
  rw [errors_append, log_append, List.map_append, List.map_append]
  rfl

variable (r) in
/-- What a parse gives, relabeled: `act` says how its values are. -/
def Outcome.relabel {α β : Type} (act : α → β) (o : Outcome α) : Outcome β :=
  ⟨o.value.map act, o.feed.relabel r, o.notes.relabel r⟩

variable (r) in

/-- The row with its statements, its feed and its notes relabeled. -/
def Stretch.relabel (st : Stretch) : Stretch :=
  ⟨st.items.map (Stmt.relabel r), st.feed.relabel r, st.notes.relabel r⟩

namespace Parse

variable {α β γ δ : Type} {f : Feed}

/-! ## Natural parses -/

variable (r) in
/-- Reading with `p'` at the relabeled feed is reading with `p` and relabeling the outcome. -/
def Natural (act : α → β) (p : Parse α) (p' : Parse β) (f : Feed) : Prop :=
  p' (f.relabel r) = (p f).relabel r act

/-- A natural parse is followed by the relabeled token. -/
theorem Natural.advance {act : α → β} {p : Parse α} {p' : Parse β} (h : Natural r act p p' f) :
    (p' (f.relabel r)).feed.advance = (p f).feed.advance.relabel r := by
  unfold Natural at h
  rw [h]
  exact Feed.advance_relabel

/-- Giving a value is natural if the values correspond. -/
theorem natural_pure {act : α → β} {a : α} {b : β} (hb : b = act a) :
    Natural r act (pure a) (pure b) f := by
  subst hb
  rfl

/-- Rejecting is natural if the complaints correspond. -/
theorem natural_reject {act : α → β} {c c' : Complaint} (hc : c' = c.relabel r) :
    Natural r act (reject c) (reject c') f := by
  subst hc
  rfl

/-- Sequencing keeps parses natural: what comes second is read where the first one ends. -/
theorem natural_bind {act : α → β} {act' : γ → δ} {p : Parse α} {p' : Parse β} {k : α → Parse γ}
    {k' : β → Parse δ} (hp : Natural r act p p' f)
    (hk : ∀ a g, p.Gives f a g → Natural r act' (k a) (k' (act a)) g) :
    Natural r act' (p >>= k) (p' >>= k') f := by
  unfold Natural at hp ⊢
  cases hvalue : (p f).value with
  | none =>
      have hvalue' : (p' (f.relabel r)).value = none := by rw [hp, Outcome.relabel, hvalue]; rfl
      rw [bind_of_none hvalue, bind_of_none hvalue', hp]
      rfl
  | some a =>
      have hvalue' : (p' (f.relabel r)).value = some (act a) := by
        rw [hp, Outcome.relabel, hvalue]
        rfl
      have hrest : k' (act a) ((p f).feed.relabel r) = _ := hk a (p f).feed ⟨hvalue, rfl⟩
      have hfeed : (p' (f.relabel r)).feed = (p f).feed.relabel r := by rw [hp]; rfl
      have hnotes : (p' (f.relabel r)).notes = (p f).notes.relabel r := by rw [hp]; rfl
      rw [bind_of_some hvalue, bind_of_some hvalue', hfeed, hnotes, hrest]
      simp [Outcome.relabel]

variable {act : γ → δ}

/-- A parse that looks at the current token is natural if it is so for that token. -/
theorem natural_current_bind {k k' : Token → Parse _}
    (hk : Natural r act (k f.current) (k' (f.current.relabel r)) f) :
    Natural r act (current >>= k) (current >>= k') f := hk

/-- A parse that looks at the next token is natural if it is so for that token. -/
theorem natural_peek_bind {k : Token → Parse γ} {k' : Token → Parse δ}
    (hk : Natural r act (k f.peek) (k' (f.peek.relabel r)) f) :
    Natural r act (peek >>= k) (peek >>= k') f := by
  unfold Natural at hk ⊢
  have hpeek : (peek >>= k') (f.relabel r) = k' (f.relabel r).peek (f.relabel r) := rfl
  rw [hpeek, Feed.peek_relabel, hk]
  rfl

/-- A parse that moves on is natural if it is so one token further on. -/
theorem natural_advance_bind {k : Unit → Parse γ} {k' : Unit → Parse δ}
    (hk : Natural r act (k ()) (k' ()) f.advance) :
    Natural r act (advance >>= k) (advance >>= k') f := by
  unfold Natural at hk ⊢
  rw [advance_bind, advance_bind, Feed.advance_relabel, hk]

/-- Asking for a token is natural if the test does not tell a relabeled token from the other. -/
theorem natural_expectThat_bind {test : Token → Bool} {wanted wanted' : Expectation}
    {k : Unit → Parse γ} {k' : Unit → Parse δ} (htest : test (f.peek.relabel r) = test f.peek)
    (hwanted : wanted' = wanted.relabel r)
    (hk : test f.peek = true → Natural r act (k ()) (k' ()) f.advance) :
    Natural r act (expectThat test wanted >>= k) (expectThat test wanted' >>= k') f := by
  subst hwanted
  have hexpect : Natural r id (expectThat test wanted) (expectThat test (wanted.relabel r)) f := by
    unfold Natural expectThat
    rw [Feed.peek_relabel, htest]
    split
    · unfold advance move
      rw [Feed.advance_relabel]
      rfl
    · rfl
  refine natural_bind hexpect fun _ g hg => ?_
  obtain ⟨hpasses, rfl⟩ :=
    yields_expectThat.mp ((settled_expectThat test wanted f).yields_of_gives hg)
  exact hk hpasses

/-- A parse that expects a text is natural if it is so behind it. -/
theorem natural_expect_bind {w : String} {wanted wanted' : Expectation} {k : Unit → Parse γ}
    {k' : Unit → Parse δ} (hwanted : wanted' = wanted.relabel r)
    (hk : f.peek.isMark w = true → Natural r act (k ()) (k' ()) f.advance) :
    Natural r act (expect w wanted >>= k) (expect w wanted' >>= k') f :=
  natural_expectThat_bind (by simp) hwanted hk

/-- A natural parse stays natural if its failure is followed by a move that is so. -/
theorem natural_orMove {act : α → β} {p : Parse α} {p' : Parse β} {m : Feed → Feed}
    (hp : Natural r act p p' f) (hm : m ((p f).feed.relabel r) = (m (p f).feed).relabel r) :
    Natural r act (p.orMove m) (p'.orMove m) f := by
  unfold Natural orMove at *
  rw [hp]
  cases hvalue : (p f).value with
  | none => simp [Outcome.relabel, hvalue, hm]
  | some a => simp [Outcome.relabel, hvalue]

/-! ## Expressions -/

/-- Reading an operand is natural. -/
theorem natural_operand (f : Feed) : Natural r (Expr.relabel r) operand operand f := by
  apply natural_current_bind
  rw [Token.toLexeme_relabel, Lexeme.kind_relabel]
  cases hkind : f.current.kind with
  | identifier =>
      apply natural_pure
      rw [Lexeme.relabel_of_identifier hkind]
      rfl
  | number =>
      apply natural_pure
      rw [Lexeme.relabel_of_ne (by simp [hkind])]
      rfl
  | reserved => exact natural_reject rfl
  | symbol => exact natural_reject rfl
  | endOfInput => exact natural_reject rfl
  | error => exact natural_reject rfl

/-- Relabeling does not change what is a sign of arithmetic. -/
theorem isArithmetic_relabel (l : Lexeme) : isArithmetic (l.relabel r) = isArithmetic l := by
  by_cases h : l.kind = .identifier
  · simp [isArithmetic, h]
  · rw [Lexeme.relabel_of_ne h]

/-- Relabeling is steady on the feed that a parse leaves. -/
theorem Gives.steady {p : Parse α} {a : α} {g : Feed} (h : p.Gives f a g) (hp : p.Walks)
    (hf : f.Steady r) : g.Steady r := by
  have hwalk := hp f
  rw [h.feed] at hwalk
  exact hf.of_walk hwalk

/-- Reading an expression is natural. -/
theorem natural_expression (hf : f.Steady r) :
    Natural r (Expr.relabel r) expression expression f := by
  refine natural_bind (natural_operand f) fun left g hleft => ?_
  have hg := hleft.steady walks_operand hf
  apply natural_peek_bind
  rw [Token.toLexeme_relabel, isArithmetic_relabel]
  by_cases hsign : isArithmetic g.peek.toLexeme = true
  · -- the sign is a symbol, so it keeps its text
    have hne : g.peek.kind ≠ .identifier := by
      intro hkind
      simp [isArithmetic, hkind] at hsign
    rw [if_pos hsign, if_pos hsign]
    apply natural_advance_bind
    apply natural_current_bind
    apply natural_advance_bind
    refine natural_bind (natural_operand _) fun right h _ => ?_
    apply natural_pure
    rw [Feed.current_advance hg.free, Token.toLexeme_relabel, Lexeme.relabel_of_ne hne,
      Expr.position_relabel]
    rfl
  · rw [if_neg hsign, if_neg hsign]
    exact natural_pure rfl

/-- Reading a comparison is natural. -/
theorem natural_comparison (f : Feed) : Natural r (Expr.relabel r) comparison comparison f := by
  refine natural_bind (natural_operand f) fun left g _ => ?_
  refine natural_expect_bind rfl fun _ => ?_
  apply natural_advance_bind
  refine natural_bind (natural_operand _) fun right h _ => ?_
  apply natural_pure
  rw [Expr.position_relabel]
  rfl

/-! ## Statements -/

/-- A value with a semicolon behind it. -/
theorem natural_value {wanted : Expectation} {k k' : Expr → Stmt} (hf : f.Steady r)
    (hwanted : wanted.relabel r = wanted) (hk : ∀ e : Expr, k' (e.relabel r) = (k e).relabel r) :
    Natural r (Stmt.relabel r)
      (advance >>= fun _ => expression >>= fun value => expect ";" wanted >>= fun _ =>
        pure (k value))
      (advance >>= fun _ => expression >>= fun value => expect ";" wanted >>= fun _ =>
        pure (k' value)) f := by
  apply natural_advance_bind
  refine natural_bind (natural_expression hf.advance) fun value g _ => ?_
  refine natural_expect_bind hwanted.symm fun _ => ?_
  exact natural_pure (hk value)

/-- Reading a declaration is natural if its type is the guide word `int`. -/
theorem natural_declaration (hf : f.Steady r) (hint : f.current.literal = "int") :
    Natural r (Stmt.relabel r) declaration declaration f := by
  have hfirst : (f.current.relabel r).literal = f.current.literal := by
    rw [hint, hf.current.literal_iff (by decide), hint]
  apply natural_current_bind
  refine natural_expectThat_bind (by simp) rfl fun hname => ?_
  have hkind : f.advance.current.kind = .identifier := by
    rw [Feed.current_advance hf.free]
    exact of_decide_eq_true hname
  have hliteral : (f.advance.current.relabel r).literal = r.name f.advance.current.literal := by
    rw [Token.toLexeme_relabel, Lexeme.relabel_of_identifier hkind]
  apply natural_current_bind
  rw [hliteral, hfirst]
  refine natural_expect_bind rfl fun _ => ?_
  exact natural_value hf.advance.advance rfl fun value => rfl

/-- Reading an assignment is natural if its target is an identifier. -/
theorem natural_assignment (hf : f.Steady r) (hkind : f.current.kind = .identifier) :
    Natural r (Stmt.relabel r) assignment assignment f := by
  have hliteral : (f.current.relabel r).literal = r.name f.current.literal := by
    rw [Token.toLexeme_relabel, Lexeme.relabel_of_identifier hkind]
  apply natural_current_bind
  rw [hliteral]
  refine natural_expect_bind rfl fun _ => ?_
  exact natural_value hf.advance rfl fun value => rfl

/-- Reading a condition is natural. -/
theorem natural_condition (hf : f.Steady r) :
    Natural r (Expr.relabel r) condition condition f := by
  refine natural_expect_bind rfl fun _ => ?_
  apply natural_advance_bind
  have hopen := hf.advance.advance
  have hstop := hopen.of_walk (walks_comparison _)
  refine natural_bind (natural_orMove (natural_comparison _) hstop.pastCondition_relabel)
    fun test g _ => ?_
  refine natural_expect_bind rfl fun _ => ?_
  refine natural_expect_bind rfl fun _ => ?_
  exact natural_pure rfl

/-! ### Loop bodies -/

/-- Relabeling does not change whether an assignment starts. -/
theorem startsAssignment_relabel (f : Feed) :
    startsAssignment (f.relabel r) = startsAssignment f := by
  unfold startsAssignment
  rw [Feed.current_relabel, Token.toLexeme_relabel, Lexeme.kind_relabel, Feed.peekIs_relabel]

/-- Reading an item of a loop body is natural. -/
theorem natural_bodyItem (hf : f.Steady r) :
    Natural r (Stmt.relabel r) bodyItem bodyItem f := by
  unfold Natural bodyItem
  rw [startsAssignment_relabel]
  by_cases hstarts : startsAssignment f = true
  · rw [if_pos hstarts, if_pos hstarts]
    exact natural_assignment hf (startsAssignment_iff.mp hstarts).1
  · rw [if_neg hstarts, if_neg hstarts]
    rfl

/-- Relabeling does not change whether a loop body ends. -/
theorem endsBody_relabel (hf : f.Steady r) : endsBody (f.relabel r) = endsBody f := by
  unfold endsBody
  rw [Feed.atEnd_relabel, Feed.current_relabel, hf.current.literal_beq (by decide)]

/-- Relabeling does not change whether an item breaks off. -/
theorem breaksOff_relabel (hf : f.Steady r) :
    breaksOff (bodyItem (f.relabel r)) = breaksOff (bodyItem f) := by
  have hstop := hf.of_walk (walks_bodyItem f)
  rw [natural_bodyItem hf]
  unfold breaksOff Outcome.relabel
  rw [Option.isNone_map, Feed.current_relabel, hstop.current.literal_beq (by decide)]

/-- The statements of a relabeled outcome are its statements, relabeled. -/
theorem toList_relabel (o : Outcome Stmt) :
    (o.relabel r (Stmt.relabel r)).value.toList = o.value.toList.map (Stmt.relabel r) := by
  unfold Outcome.relabel
  cases o.value <;> rfl

/-- What a round gives in front of what the others give. -/
theorem relabel_round (o : Outcome Stmt) (rest : Stretch) :
    Stretch.relabel r ⟨o.value.toList ++ rest.items, rest.feed, o.notes ++ rest.notes⟩ =
      ⟨(o.relabel r (Stmt.relabel r)).value.toList ++ (rest.relabel r).items,
        (rest.relabel r).feed,
        (o.relabel r (Stmt.relabel r)).notes ++ (rest.relabel r).notes⟩ := by
  unfold Stretch.relabel
  rw [toList_relabel, List.map_append, Notes.relabel_append]
  rfl

/-- A body is read in the same rounds when its tokens are relabeled. -/
theorem BodyRun.relabel {st : Stretch} (h : BodyRun f st) (hf : f.Steady r) :
    BodyRun (f.relabel r) (st.relabel r) := by
  induction h with
  | @done f hends => exact .done (by rw [endsBody_relabel hf, hends])
  | @broken f hends hbreaks =>
      have hrun := BodyRun.broken (by rw [endsBody_relabel hf, hends])
        (by rw [breaksOff_relabel hf, hbreaks])
      rw [natural_bodyItem hf] at hrun
      exact hrun
  | @item f rest hends hbreaks hlt hrest ih =>
      have hitem := natural_bodyItem hf
      have hnext := hitem.advance
      have hrun := BodyRun.item (by rw [endsBody_relabel hf, hends])
        (by rw [breaksOff_relabel hf, hbreaks])
        (by rw [hnext, Feed.length_following_relabel, Feed.length_following_relabel]; exact hlt)
        (by rw [hnext]; exact ih (hf.of_walk (walks_bodyItem f)).advance)
      rw [hitem] at hrun
      rw [relabel_round]
      exact hrun
  | @stuck f hends hbreaks hlt =>
      have hitem := natural_bodyItem hf
      have hnext := hitem.advance
      have hrun := BodyRun.stuck (by rw [endsBody_relabel hf, hends])
        (by rw [breaksOff_relabel hf, hbreaks])
        (by rw [hnext, Feed.length_following_relabel, Feed.length_following_relabel]; exact hlt)
      rw [hnext, hitem, toList_relabel] at hrun
      exact hrun

/-- The feed settles how a body is read. -/
theorem BodyRun.unique {st st' : Stretch} (h : BodyRun f st) (h' : BodyRun f st') : st = st' := by
  induction h generalizing st' with
  | done hends => exact (h'.eq_of_endsBody hends).symm
  | broken hends hbreaks =>
      cases h' with
      | done hends' => simp [hends] at hends'
      | broken _ _ => rfl
      | item _ hbreaks' _ _ => simp [hbreaks] at hbreaks'
      | stuck _ hbreaks' _ => simp [hbreaks] at hbreaks'
  | item hends hbreaks hlt hrest ih =>
      cases h' with
      | done hends' => simp [hends] at hends'
      | broken _ hbreaks' => simp [hbreaks] at hbreaks'
      | item _ _ _ hrest' => rw [ih hrest']
      | stuck _ _ hlt' => exact absurd hlt hlt'
  | stuck hends hbreaks hlt =>
      cases h' with
      | done hends' => simp [hends] at hends'
      | broken _ hbreaks' => simp [hbreaks] at hbreaks'
      | item _ _ hlt' _ => exact absurd hlt' hlt
      | stuck _ _ _ => rfl

/-- The body that is read after relabeling is the body, relabeled. -/
theorem body_relabel (hf : f.Steady r) : body (f.relabel r) = (body f).relabel r :=
  (bodyRun_body (f.relabel r)).unique ((bodyRun_body f).relabel hf)

/-- Reading the items of a body is natural. -/
theorem natural_items (hf : f.Steady r) :
    Natural r (List.map (Stmt.relabel r)) items items f := by
  unfold Natural items
  rw [body_relabel hf]
  rfl

/-- Reading a body with its closing brace is natural. -/
theorem natural_closedBody (hf : f.Steady r) :
    Natural r (List.map (Stmt.relabel r)) closedBody closedBody f := by
  rw [closedBody_eq]
  refine natural_bind (natural_items hf) fun ss g hss => ?_
  have hg := hss.steady walks_items hf
  apply natural_current_bind
  rw [hg.current.literal_beq (by decide)]
  split
  · exact natural_pure rfl
  · exact natural_reject rfl

/-! ### Loops -/

/-- Reading a loop behind its opening brace is natural. -/
theorem natural_braced (first : Token) (hf : f.Steady r) :
    Natural r (Stmt.relabel r) (braced first) (braced (first.relabel r)) f := by
  refine natural_bind (natural_closedBody hf) fun ss g hss => ?_
  have hg := hss.steady walks_closedBody hf
  refine natural_expect_bind rfl fun _ => ?_
  refine natural_bind (natural_condition hg.advance) fun test h _ => ?_
  apply natural_pure
  rw [← Stmt.relabelAll_eq_map]
  rfl

/-- Looking for the condition is natural. -/
theorem natural_seekCondition (hf : f.Steady r) : Natural r id seekCondition seekCondition f := by
  have hmove : Natural r id (move (Feed.skipTo "while")) (move (Feed.skipTo "while")) f := by
    unfold Natural move
    rw [hf.skipTo_relabel (by decide)]
    rfl
  refine natural_bind hmove fun _ g _ => ?_
  apply natural_current_bind
  rw [Token.isEnd_relabel]
  split
  · rfl
  · exact natural_pure rfl

/-- Reading a loop that lacks its opening brace is natural. -/
theorem natural_bare (first : Token) (hf : f.Steady r) :
    Natural r (Stmt.relabel r) (bare first) (bare (first.relabel r)) f := by
  refine natural_bind (natural_seekCondition hf) fun _ g hseek => ?_
  have hg := hseek.steady walks_seekCondition hf
  refine natural_bind (natural_condition hg) fun test h _ => ?_
  exact natural_pure rfl

/-- Reading a loop is natural. -/
theorem natural_loop (hf : f.Steady r) : Natural r (Stmt.relabel r) loop loop f := by
  unfold Natural
  by_cases hopening : f.peek.isMark "\x7b" = true
  · have hopening' : (f.relabel r).peek.isMark "\x7b" = true := by simpa using hopening
    have hbraced : braced (f.current.relabel r) (f.advance.advance.relabel r) = _ :=
      natural_braced f.current hf.advance.advance
    rw [loop_of_opening hopening, loop_of_opening hopening', Feed.advance_relabel,
      Feed.advance_relabel, Feed.current_relabel, hbraced]
  · have hopening : f.peek.isMark "\x7b" = false := by simpa using hopening
    have hopening' : (f.relabel r).peek.isMark "\x7b" = false := by simpa using hopening
    have hbare : bare (f.current.relabel r) (f.relabel r) = _ := natural_bare f.current hf
    rw [loop_of_no_opening hopening, loop_of_no_opening hopening', Feed.current_relabel,
      Feed.peek_relabel, hbare]
    unfold Outcome.relabel
    rw [Notes.relabel_append]
    rfl

/-! ### Rows of statements -/

/-- Reading a statement is natural. -/
theorem natural_statement (hf : f.Steady r) :
    Natural r (Stmt.relabel r) statement statement f := by
  unfold Natural statement
  rw [Feed.current_relabel, hf.current.literal_beq (by decide), hf.current.literal_beq (by decide),
    startsAssignment_relabel]
  by_cases hint : (f.current.literal == "int") = true
  · rw [if_pos hint, if_pos hint]
    exact natural_declaration hf (by simpa using hint)
  rw [if_neg hint, if_neg hint]
  by_cases hdo : (f.current.literal == "do") = true
  · rw [if_pos hdo, if_pos hdo]
    exact natural_loop hf
  rw [if_neg hdo, if_neg hdo]
  by_cases hstarts : startsAssignment f = true
  · rw [if_pos hstarts, if_pos hstarts]
    exact natural_assignment hf (startsAssignment_iff.mp hstarts).1
  · rw [if_neg hstarts, if_neg hstarts]
    rfl

/-- The statements that are read after relabeling are the statements, relabeled. -/
theorem statements_relabel (rounds : Nat) (hf : f.Steady r) :
    statements rounds (f.relabel r) = (statements rounds f).relabel r := by
  induction rounds generalizing f with
  | zero =>
      unfold statements
      rw [Feed.atEnd_relabel]
      split <;> rfl
  | succ rounds ih =>
      by_cases hend : f.atEnd = true
      · rw [statements_of_atEnd hend, statements_of_atEnd (by rw [Feed.atEnd_relabel, hend])]
        rfl
      have hend : f.atEnd = false := by simpa using hend
      have hstatement := natural_statement hf
      have hnext := hstatement.advance
      unfold Natural at hstatement
      have hrest := ih (hf.of_walk (walks_statement f)).advance
      rw [statements_succ hend, statements_succ (by rw [Feed.atEnd_relabel, hend]), hnext, hrest,
        hstatement, relabel_round]

end Parse

/-! ## Whole token lists -/

/-- A closed list stays closed after relabeling. -/
theorem closed_map_relabel {ts : List Token} (hts : closed ts = ts) :
    closed (ts.map (Token.relabel r)) = ts.map (Token.relabel r) := by
  unfold closed missingEnd at *
  rw [List.getLast?_map]
  cases hlast : ts.getLast? with
  | none => simp [hlast] at hts
  | some t =>
      by_cases hend : t.isEnd = true
      · simp [hend]
      · simp [hlast, hend] at hts

/-- The feed on a closed list is relabeled with the list. -/
theorem ofTokens_map_relabel {ts : List Token} (hts : closed ts = ts) :
    Feed.ofTokens (ts.map (Token.relabel r)) = (Feed.ofTokens ts).relabel r := by
  unfold Feed.ofTokens
  rw [closed_map_relabel hts, hts]
  cases ts with
  | nil => exact absurd hts (closed_ne_nil [])
  | cons t ts => rfl

/-- **Parsing commutes with relabeling.** Where a relabeling is steady on the tokens, parsing the
relabeled tokens gives the relabeled statements and raises the relabeled diagnostics. -/
theorem parse_relabel {ts : List Token} (hts : closed ts = ts) (hsteady : ∀ t ∈ ts, t.Steady r) :
    (parse (ts.map (Token.relabel r))).program = (parse ts).program.relabel r ∧
      (parse (ts.map (Token.relabel r))).errors =
        (parse ts).errors.map (Diagnostic.relabel r) := by
  have htokens := Feed.ofTokens_tokens ts
  have hf : (Feed.ofTokens ts).Steady r := by
    refine ⟨(Feed.live_ofTokens ts).free, ?_⟩
    rw [htokens, hts]
    exact hsteady
  have hstatements := Parse.statements_relabel (Parse.allowance (closed ts).length) hf
  unfold parse
  rw [closed_map_relabel hts, ofTokens_map_relabel hts, List.length_map]
  rw [hts] at hstatements ⊢
  rw [hstatements]
  exact ⟨rfl, rfl⟩

end DoWhile
