import DoWhile.Proofs.Analysis.Occurrences
import DoWhile.Proofs.Parse.Rounds

/-!
# How the diagnostics of the grammar are spread

A parse of a text raises its diagnostics from left to right, because reading is a walk. At one place
there are at most two, and they differ: a round stops where it fails and the next one begins further
on, so two of them meet only where an assignment of a loop body fails for want of an operand on a
closing brace or at the end of the input, and the loop then fails there as well
(`sparse_braced`). Each diagnostic can be charged to a token of its own, which bounds their
number by that of the tokens in front of the end (`syntaxErrors_spread`).
-/

set_option autoImplicit false

namespace DoWhile

/-! ## Feeds on the tokens of a text -/

/-- A feed as it stands on the tokens of a text: the tokens from the current one on stand one behind
the other, and only the last of them is an end token. -/
structure Feed.Textual (f : Feed) : Prop where
  live : f.Live
  ascending : (f.current :: f.following).Pairwise fun t u => t.position.Before u.position
  proper : ∀ t ∈ (f.current :: f.following).dropLast, t.isProper = true

namespace Feed

variable {f g : Feed}

/-- A feed on the tokens of a text still is one after it has moved. -/
theorem Textual.of_moves {us : List Token} (hf : f.Textual) (hfg : f.Moves us g) : g.Textual := by
  obtain ⟨passed, -, hpasses⟩ := hfg.exists_passes
  have hascending := hf.ascending
  have hproper := hf.proper
  rw [hpasses.tokens] at hascending hproper
  rw [List.dropLast_append_of_ne_nil (List.cons_ne_nil _ _)] at hproper
  exact ⟨hf.live.of_moves hfg, (List.pairwise_append.mp hascending).2.1,
    fun t ht => hproper t (List.mem_append_right passed ht)⟩

/-- A feed on the tokens of a text still is one after a walk. -/
theorem Textual.of_walk {ds : List Diagnostic} (hf : f.Textual) (h : f.Walk ds g) : g.Textual := by
  obtain ⟨us, hmoves, -⟩ := h.exists_moves
  exact hf.of_moves hmoves

/-- A feed on the tokens of a text still is one further on. -/
theorem Textual.advance (hf : f.Textual) : f.advance.Textual := hf.of_walk (walk_advance f)

/-- In front of the end, the current token of a text is a proper one. -/
theorem Textual.isProper_current (hf : f.Textual) (hend : f.atEnd = false) :
    f.current.isProper = true := by
  have hne := hf.live.following_ne_nil hend
  apply hf.proper
  rw [List.dropLast_cons_of_ne_nil hne]
  exact List.mem_cons_self

/-- Moving is moving forward through the text. -/
theorem Textual.before_of_moves {us : List Token} (hf : f.Textual) (hfg : f.Moves us g)
    (hne : us ≠ []) : f.current.position.Before g.current.position := by
  have hascending := (List.pairwise_cons.mp hf.ascending).1
  apply hascending
  rcases List.eq_nil_or_concat us with rfl | ⟨vs, v, rfl⟩
  · exact absurd rfl hne
  · rw [hfg.current, hfg.following, List.concat_eq_append, getLastD_append_cons, List.getLastD_nil]
    simp

/-- A token of a text comes before the next one. -/
theorem Textual.before_advance (hf : f.Textual) (hne : f.following ≠ []) :
    f.current.position.Before f.advance.current.position := by
  exact hf.before_of_moves (hf.live.moves_of_following hne) (List.cons_ne_nil _ _)

/-- The next token of a text comes no earlier than the current one. -/
theorem Textual.noLater_advance (hf : f.Textual) :
    f.current.position.NoLater f.advance.current.position := by
  obtain hstays | hmove := f.advance_cases
  · rw [hstays]
    exact .inl rfl
  · exact .inr (hf.before_advance (by rw [hmove.following]; exact List.cons_ne_nil _ _))

/-- A walk goes forward through the text, and its diagnostics stand between its two ends. -/
theorem Walk.between {ds : List Diagnostic} (h : f.Walk ds g) (hf : f.Textual) :
    f.current.position.NoLater g.current.position ∧
      ∀ d ∈ ds, f.current.position.NoLater d.position ∧ d.position.NoLater g.current.position := by
  induction h with
  | stay f => exact ⟨.inl rfl, List.forall_mem_nil _⟩
  | raise hc _ ih =>
      obtain ⟨hends, hplaces⟩ := ih hf
      exact ⟨hends, List.forall_mem_cons.mpr ⟨⟨.inl rfl, hends⟩, hplaces⟩⟩
  | step _ ih =>
      obtain ⟨hends, hplaces⟩ := ih hf.advance
      have hstep := hf.noLater_advance
      exact ⟨hstep.trans hends, fun d hd => ⟨hstep.trans (hplaces d hd).1, (hplaces d hd).2⟩⟩

/-- The diagnostics of a walk come in the order of the text. -/
theorem Walk.pairwise_noLater {ds : List Diagnostic} (h : f.Walk ds g) (hf : f.Textual) :
    ds.Pairwise fun d e => d.position.NoLater e.position := by
  induction h with
  | stay f => exact .nil
  | raise hc hwalk ih =>
      exact List.pairwise_cons.mpr ⟨fun d hd => ((hwalk.between hf).2 d hd).1, ih hf⟩
  | step _ ih => exact ih hf.advance

/-- What a walk raises stands in front of where the next one begins, one token further, and so in
front of all that the next one raises and of where it ends. -/
theorem Walk.before_next {h : Feed} {ds es : List Diagnostic} (hfg : f.Walk ds g)
    (hgh : g.advance.Walk es h) (hf : f.Textual) (hne : g.following ≠ []) :
    ∀ d ∈ ds, d.position.Before h.current.position ∧
      ∀ e ∈ es, d.position.Before e.position := by
  intro d hd
  have hg := hf.of_walk hfg
  have hhere := ((hfg.between hf).2 d hd).2
  have hstep := hhere.trans_before (hg.before_advance hne)
  obtain ⟨hend, hplaces⟩ := hgh.between hg.advance
  exact ⟨hstep.trans_noLater hend, fun e he => hstep.trans_noLater (hplaces e he).1⟩

end Feed

/-! ## Sparse diagnostics -/

/-- Diagnostics of which no three stand at one place and no two are alike. -/
structure Sparse (ds : List Diagnostic) : Prop where
  few : ∀ p, (ds.countP fun d => d.position = p) ≤ 2
  distinct : (ds.map fun d => (d.message, d.position)).Nodup

/-- At most one of the diagnostics that all stand at different places stands at a given one. -/
theorem countP_le_one {ds : List Diagnostic}
    (h : ds.Pairwise fun d e => d.position.Before e.position) (p : Position) :
    (ds.countP fun d => d.position = p) ≤ 1 := by
  induction ds with
  | nil => exact Nat.zero_le 1
  | cons d ds ih =>
      obtain ⟨hd, hds⟩ := List.pairwise_cons.mp h
      by_cases hp : d.position = p
      · have hnone : ds.countP (fun e => e.position = p) = 0 := by
          rw [List.countP_eq_zero]
          intro e he
          have hne := (hd e he).ne
          rw [hp] at hne
          simpa using hne.symm
        simp [hp, hnone]
      · simpa [hp] using ih hds

/-- Diagnostics that all stand at different places are sparse. -/
theorem sparse_of_pairwise_before {ds : List Diagnostic}
    (h : ds.Pairwise fun d e => d.position.Before e.position) : Sparse ds := by
  constructor
  · intro p
    exact (countP_le_one h p).trans (Nat.le_succ 1)
  · exact nodup_of_pairwise_before h

/-- A single diagnostic stands behind no other. -/
theorem pairwise_of_length_le {ds : List Diagnostic} (h : ds.length ≤ 1) :
    ds.Pairwise fun d e => d.position.Before e.position := by
  cases ds with
  | nil => exact .nil
  | cons d ds =>
      obtain rfl : ds = [] := List.length_eq_zero_iff.mp (by simpa using h)
      exact List.pairwise_singleton _ d

/-- A single diagnostic is sparse. -/
theorem sparse_of_length_le {ds : List Diagnostic} (h : ds.length ≤ 1) : Sparse ds :=
  sparse_of_pairwise_before (pairwise_of_length_le h)

/-- Diagnostics at different places, and one more that is like none of them. -/
theorem sparse_concat {ds : List Diagnostic} {x : Diagnostic}
    (hds : ds.Pairwise fun d e => d.position.Before e.position)
    (hx : ∀ d ∈ ds, (d.message, d.position) ≠ (x.message, x.position)) : Sparse (ds ++ [x]) := by
  constructor
  · intro p
    have hfront := countP_le_one hds p
    have hback : ([x].countP fun d => d.position = p) ≤ 1 := List.countP_le_length
    rw [List.countP_append]
    omega
  · rw [List.map_append, List.nodup_append]
    refine ⟨nodup_of_pairwise_before hds, by simp, ?_⟩
    intro a ha b hb
    obtain ⟨d, hd, rfl⟩ := List.mem_map.mp ha
    rw [List.map_singleton, List.mem_singleton] at hb
    rw [hb]
    exact hx d hd

/-- Sparse diagnostics in front of sparse ones that all stand further on. -/
theorem Sparse.append {ds es : List Diagnostic} (hds : Sparse ds) (hes : Sparse es)
    (h : ∀ d ∈ ds, ∀ e ∈ es, d.position.Before e.position) : Sparse (ds ++ es) := by
  constructor
  · intro p
    rw [List.countP_append]
    by_cases hp : ∃ d ∈ ds, d.position = p
    · obtain ⟨d, hd, rfl⟩ := hp
      have hnone : es.countP (fun e => e.position = d.position) = 0 := by
        rw [List.countP_eq_zero]
        intro e he
        simpa using (h d hd e he).ne.symm
      rw [hnone]
      exact hds.few d.position
    · have hnone : ds.countP (fun d => d.position = p) = 0 := by
        rw [List.countP_eq_zero]
        intro d hd
        simpa using fun heq => hp ⟨d, hd, heq⟩
      rw [hnone, Nat.zero_add]
      exact hes.few p
  · rw [List.map_append, List.nodup_append]
    refine ⟨hds.distinct, hes.distinct, ?_⟩
    intro a ha b hb heq
    obtain ⟨d, hd, rfl⟩ := List.mem_map.mp ha
    obtain ⟨e, he, rfl⟩ := List.mem_map.mp hb
    exact (h d hd e he).ne (Prod.mk.inj heq).2

/-! ## Loop bodies -/

namespace Parse

variable {f g : Feed}

/-- A settled parse raises at most one diagnostic. -/
theorem Settled.length_errors_le {α : Type} {p : Parse α} (hp : p.Settled f) :
    (p f).notes.errors.length ≤ 1 := by
  obtain ⟨a, g, hyields⟩ | ⟨-, d, hd⟩ := hp
  · rw [hyields.quiet]
    exact Nat.zero_le 1
  · rw [hd]
    exact Nat.le_refl 1

/-- Where a body of a text ends, there is no operand. -/
theorem operand?_of_endsBody (hf : f.Textual) (hends : endsBody f = true) :
    f.current.operand? = none := by
  by_cases hend : f.atEnd = true
  · have hkind : f.current.kind = .endOfInput := by simpa [Feed.atEnd, Token.isEnd] using hend
    simp [Token.operand?, hkind]
  · have hclosing : f.current.literal = "\x7d" := by simpa [endsBody, hend] using hends
    have hproper := hf.isProper_current (by simpa using hend)
    exact Token.operand?_of_literal hproper rfl hclosing

/-- An item that fails on a closing brace or on an end token fails for want of an operand, right
there. -/
theorem bodyItem_fails (hf : f.Textual) (hends : endsBody f = false)
    (hstop : endsBody (bodyItem f).feed = true) {d : Diagnostic}
    (hd : d ∈ (bodyItem f).notes.errors) :
    d.position = (bodyItem f).feed.current.position ∧
      ∃ found, d.complaint = .expected .operand found := by
  by_cases hstarts : startsAssignment f = true
  · have heq : bodyItem f = assignment f := by rw [bodyItem, if_pos hstarts]
    have hequals : f.peek.isMark "=" = true := (startsAssignment_iff.mp hstarts).2
    rw [heq] at hd hstop ⊢
    obtain ⟨s, g, hyields⟩ | ⟨c, g, hfails, hc⟩ := halts_assignment hf.live hequals
    · rw [hyields.quiet] at hd
      exact absurd hd List.not_mem_nil
    · rw [hfails.errors, List.mem_singleton] at hd
      rw [hfails.feed] at hstop ⊢
      subst hd
      have hg : g.Textual := hfails.feed ▸ hf.of_walk (walks_assignment f)
      exact ⟨rfl, hc (operand?_of_endsBody hg hstop)⟩
  · have heq : bodyItem f = reject (.expected .bodyAssignment f.current.toLexeme) f := by
      rw [bodyItem, if_neg hstarts]
    rw [heq] at hstop
    have hsame : endsBody f = true := hstop
    rw [hends] at hsame
    exact absurd hsame (by decide)

/-- The diagnostics of a loop body stand at different places in front of its end, but for one that
stands there and asks for an operand; and each can be charged to a token of the body. -/
structure BodySpread (f : Feed) (st : Stretch) : Prop where
  apart : st.notes.errors.Pairwise fun d e => d.position.Before e.position
  inFront : ∀ d ∈ st.notes.errors, d.position.Before st.feed.current.position ∨
    d.position = st.feed.current.position ∧ ∃ found, d.complaint = .expected .operand found
  charged : st.notes.errors.length + st.feed.following.length ≤ f.following.length

/-- An item that stops where a body ends has left the token where it began. -/
theorem following_lt_of_stop (hends : endsBody f = false)
    (hstop : endsBody (bodyItem f).feed = true) :
    (bodyItem f).feed.following.length < f.following.length := by
  obtain ⟨us, hmoves, -⟩ := (walks_bodyItem f).exists_moves
  have hne : us ≠ [] := by
    rintro rfl
    rw [hmoves.eq_of_nil, hends] at hstop
    exact absurd hstop (by decide)
  have hlen := congrArg List.length hmoves.following
  have hpos := List.length_pos_iff.mpr hne
  rw [List.length_append] at hlen
  omega

/-- A body whose last item stops where the body ends. -/
theorem bodySpread_of_stop (hf : f.Textual) (hends : endsBody f = false)
    (hstop : endsBody (bodyItem f).feed = true) (ss : List Stmt) :
    BodySpread f ⟨ss, (bodyItem f).feed, (bodyItem f).notes⟩ := by
  have hone := (settled_bodyItem f).length_errors_le
  have hlt := following_lt_of_stop hends hstop
  refine ⟨pairwise_of_length_le hone, ?_, by dsimp only; omega⟩
  intro d hd
  exact .inr (bodyItem_fails hf hends hstop hd)

/-- Reading a body raises diagnostics at different places, but for one more where the body ends. -/
theorem BodyRun.spread {st : Stretch} (h : BodyRun f st) (hf : f.Textual) : BodySpread f st := by
  induction h with
  | @done f hends =>
      exact ⟨.nil, List.forall_mem_nil _, by simp [Notes.none]⟩
  | @broken f hends hbreaks =>
      have hclosing : (bodyItem f).feed.current.literal = "\x7d" := by
        simp only [breaksOff, Bool.and_eq_true, beq_iff_eq] at hbreaks
        exact hbreaks.2
      exact bodySpread_of_stop hf hends (by simp [endsBody, hclosing]) []
  | @item f rest hends hbreaks hlt hrest ih =>
      have hwalk := walks_bodyItem f
      have hitem := hf.of_walk hwalk
      by_cases hnil : (bodyItem f).feed.following = []
      · -- the item stopped at the end of the input, where nothing is left to read
        have hstop : endsBody (bodyItem f).feed = true := by
          rw [endsBody, atEnd_of_following_eq_nil hitem.live hnil, Bool.true_or]
        rw [Feed.advance_eq_self hnil] at hrest
        obtain rfl := hrest.eq_of_endsBody hstop
        rw [Notes.append_none]
        exact bodySpread_of_stop hf hends hstop _
      · have hone := (settled_bodyItem f).length_errors_le
        have hbefore := hwalk.before_next hrest.walk hf hnil
        obtain ⟨hapart, hinFront, hcharged⟩ := ih hitem.advance
        refine ⟨?_, ?_, ?_⟩
        · rw [Notes.errors_append, List.pairwise_append]
          exact ⟨pairwise_of_length_le hone, hapart, fun d hd => (hbefore d hd).2⟩
        · intro d hd
          rcases List.mem_append.mp hd with hd | hd
          · exact .inl (hbefore d hd).1
          · exact hinFront d hd
        · rw [Notes.errors_append, List.length_append]
          dsimp only
          omega
  | @stuck f hends _ hlt =>
      exact absurd (hf.live.advance_lt (isEnd_of_endsBody hends) (walks_bodyItem f)) hlt

/-! ## Loops -/

/-- What a complaint asks for is told from its tenth character on. -/
theorem getElem?_message_expected {wanted : Expectation} {c : Char} {cs : List Char}
    (hc : wanted.text.toList = c :: cs) (found : Lexeme) :
    (Complaint.expected wanted found).message.toList[9]? = some c := by
  have hmessage : (Complaint.expected wanted found).message =
      "Expected " ++ wanted.text ++ ", got " ++ found.describe := rfl
  rw [hmessage, String.toList_append, String.toList_append, String.toList_append,
    List.append_assoc, List.append_assoc, hc]
  rfl

/-- The wording for want of an operand is none that tells of the end of a loop body. -/
theorem operand_text_ne (found found' : Lexeme) {wanted : Expectation}
    (h : wanted = .closingBrace ∨ wanted = .whileAfterBody) :
    (Complaint.expected .operand found).message ≠ (Complaint.expected wanted found').message := by
  intro heq
  have hoperand : Expectation.operand.text.toList = 'i' :: "dentifier or number".toList := rfl
  have hquote : ∃ cs, wanted.text.toList = '\'' :: cs := by
    rcases h with rfl | rfl
    · exact ⟨"\x7d' to close loop body".toList, rfl⟩
    · exact ⟨"while' after loop body".toList, rfl⟩
  obtain ⟨cs, hcs⟩ := hquote
  have hletter := getElem?_message_expected hoperand found
  rw [heq, getElem?_message_expected hcs] at hletter
  exact absurd hletter (by decide)

/-- Where a loop may raise a diagnostic behind its body: at the end of the body, and then of that
end, or further on. -/
def Behind (g : Feed) (x : Diagnostic) : Prop :=
  g.current.position.Before x.position ∨ x.position = g.current.position ∧
    ∃ wanted found, (wanted = .closingBrace ∨ wanted = .whileAfterBody) ∧
      x.complaint = .expected wanted found

/-- One more diagnostic behind a loop body is like none of those that the body raised. -/
theorem BodySpread.sparse_concat {st : Stretch} (hst : BodySpread f st) {x : Diagnostic}
    (hx : Behind st.feed x) : Sparse (st.notes.errors ++ [x]) := by
  apply DoWhile.sparse_concat hst.apart
  intro d hd heq
  obtain ⟨hmessage, hposition⟩ := Prod.mk.inj heq
  rcases hst.inFront d hd with hbefore | ⟨hhere, found, hd⟩
  · rw [hposition] at hbefore
    rcases hx with hx | ⟨hx, -⟩
    · exact (hbefore.trans hx).ne rfl
    · exact hbefore.ne hx
  · rcases hx with hx | ⟨-, wanted, found', hwanted, hx⟩
    · exact hx.ne (hhere.symm.trans hposition)
    · rw [Diagnostic.message, Diagnostic.message, hd, hx] at hmessage
      exact operand_text_ne found found' hwanted hmessage

/-- What a loop reads behind its body. -/
def behindBody (first : Token) (ss : List Stmt) : Parse Stmt :=
  expect "while" .whileAfterBody >>= fun _ => condition >>= fun test =>
    pure (.loop ss test first.position)

/-- What comes behind a body either yields or raises exactly one diagnostic. -/
theorem settled_behindBody (first : Token) (ss : List Stmt) (f : Feed) :
    (behindBody first ss).Settled f := by
  refine settled_bind (settled_expect _ _ f) fun _ g _ => ?_
  exact settled_bind (settled_condition g) fun _ g _ => settled_pure _ g

/-- What comes behind a body is read on a walk. -/
theorem walks_behindBody (first : Token) (ss : List Stmt) : (behindBody first ss).Walks := by
  refine walks_bind (walks_expect _ _) fun _ => ?_
  exact walks_bind walks_condition fun _ => walks_pure _

/-- A diagnostic behind a body stands where the body ends, and then not for want of an operand, or
further on. -/
theorem behind_of_mem {first : Token} {ss : List Stmt} (hf : f.Textual) {x : Diagnostic}
    (hx : x ∈ (behindBody first ss f).notes.errors) : Behind f x := by
  by_cases hword : f.peek.isMark "while" = true
  · -- the word is passed, and the condition begins further on
    have hmove := hf.live.moves_advance (Token.isEnd_of_isMark hword)
    have hne : f.following ≠ [] := by
      rw [hmove.following]
      exact List.cons_ne_nil _ _
    have hexpect : (expect "while" .whileAfterBody).Yields f () f.advance :=
      yields_expect.mpr ⟨hword, rfl⟩
    rw [behindBody, bind_of_some hexpect.value, Notes.errors_append, hexpect.quiet,
      hexpect.feed] at hx
    have hwalk := walks_bind walks_condition
      (fun test => walks_pure (Stmt.loop ss test first.position)) f.advance
    have hplace := ((hwalk.between hf.advance).2 x hx).1
    exact .inl ((hf.before_advance hne).trans_noLater hplace)
  · have heq : expect "while" .whileAfterBody f =
        reject (.expected .whileAfterBody f.peek.toLexeme) f := by
      rw [expect, expectThat, if_neg hword]
    rw [behindBody, bind_of_none (by rw [heq]; rfl), heq] at hx
    obtain rfl := List.mem_singleton.mp hx
    exact .inr ⟨rfl, .whileAfterBody, _, .inr rfl, rfl⟩

/-- **A loop body and its end.** A body raises at most one diagnostic where it ends, and the loop
raises at most one more, which is another one. -/
theorem sparse_braced (first : Token) (hf : f.Textual) :
    Sparse (braced first f).notes.errors ∧
      (braced first f).notes.errors.length + (braced first f).feed.following.length ≤
        f.following.length + 1 := by
  have hst := (bodyRun_body f).spread hf
  have hcharged := hst.charged
  have hbraced : braced first = closedBody >>= behindBody first := rfl
  rw [hbraced]
  by_cases hclosing : (body f).feed.current.literal = "\x7d"
  · have hends : (closedBody >>= behindBody first).Ends f _ _ _ :=
      (ends_closedBody ⟨rfl, rfl, rfl⟩ hclosing).bind ⟨rfl, rfl, rfl⟩
    rw [hends.errors, hends.feed]
    have hstop := hf.of_walk (bodyRun_body f).walk
    have hwalk := walks_behindBody first (body f).items (body f).feed
    have hle := hwalk.following_le
    rcases settled_behindBody first (body f).items (body f).feed with ⟨s, g, hyields⟩ | ⟨-, x, hx⟩
    · rw [hyields.quiet, List.append_nil]
      exact ⟨sparse_of_pairwise_before hst.apart, by omega⟩
    · have hbehind : Behind (body f).feed x := by
        apply behind_of_mem hstop
        rw [hx]
        exact List.mem_singleton_self x
      rw [hx]
      refine ⟨hst.sparse_concat hbehind, ?_⟩
      rw [List.length_append, List.length_singleton]
      omega
  · have hends := (ends_closedBody_of_open hclosing).bind_none (q := behindBody first)
    rw [hends.errors, hends.feed]
    refine ⟨hst.sparse_concat (.inr ⟨rfl, .closingBrace, _, .inl rfl, rfl⟩), ?_⟩
    rw [List.length_append, List.length_singleton]
    omega

/-! ### Loops that lack their opening brace -/

/-- A search for a condition that ends on a word has left the first token of its loop. -/
theorem moves_skipTo (hf : f.Live) (hdo : f.current.literal = "do")
    (hend : (f.skipTo "while").current.isEnd = false) :
    ∃ us, f.Moves us (f.skipTo "while") ∧ us ≠ [] := by
  obtain ⟨us, hmoves, -⟩ := (Feed.walk_skipTo "while" f).exists_moves
  refine ⟨us, hmoves, ?_⟩
  rintro rfl
  have hstops := (Feed.loops_skipTo "while" hf).stops
  rw [hmoves.eq_of_nil] at hstops hend
  simp [Feed.stopsAt, Feed.atEnd, hend, hdo] at hstops

/-- A loop that lacks its opening brace raises at most one diagnostic behind its first token, and
two tokens of it are used up. -/
theorem bare_spread (first : Token) (hf : f.Textual) (hdo : f.current.literal = "do")
    (hend : f.atEnd = false) :
    (bare first f).notes.errors.length ≤ 1 ∧
      (∀ x ∈ (bare first f).notes.errors, f.current.position.Before x.position) ∧
      (bare first f).notes.errors.length + (bare first f).feed.advance.following.length <
        f.following.length := by
  by_cases hskipped : (f.skipTo "while").current.isEnd = true
  · have hends : (bare first).Ends f none [] (f.skipTo "while") :=
      (ends_seekCondition_of_isEnd hskipped).bind_none
    have hlt := hf.live.advance_lt hend (Feed.walk_skipTo "while" f)
    rw [hends.errors, hends.feed]
    refine ⟨Nat.zero_le 1, List.forall_mem_nil _, ?_⟩
    rw [List.length_nil]
    omega
  · have hword : (f.skipTo "while").current.isEnd = false := by simpa using hskipped
    obtain ⟨us, hmoves, hne⟩ := moves_skipTo hf.live hdo hword
    have htest : (condition >>= fun test =>
        pure (Stmt.loop [] test first.position)).Settled (f.skipTo "while") :=
      settled_bind (settled_condition _) fun _ g _ => settled_pure _ g
    have hwalk := walks_bind walks_condition
      (fun test => walks_pure (Stmt.loop [] test first.position)) (f.skipTo "while")
    have hends : (bare first).Ends f _ _ _ := (yields_seekCondition hword).ends.bind ⟨rfl, rfl, rfl⟩
    have hone := htest.length_errors_le
    have hlive := hf.of_moves hmoves
    have hlt := hlive.live.advance_lt hword hwalk
    have hlen := congrArg List.length hmoves.following
    have hpos := List.length_pos_iff.mpr hne
    rw [List.length_append] at hlen
    rw [hends.errors, hends.feed, List.nil_append]
    refine ⟨hone, ?_, by omega⟩
    intro x hx
    exact (hf.before_of_moves hmoves hne).trans_noLater ((hwalk.between hlive).2 x hx).1

/-! ## Statements -/

/-- The diagnostics of a statement are sparse, and each can be charged to a token that reading it
uses up. -/
structure Spread (f : Feed) (o : Outcome Stmt) : Prop where
  sparse : Sparse o.notes.errors
  charged : o.notes.errors.length + o.feed.advance.following.length ≤ f.following.length

/-- A settled parse raises one diagnostic at most and uses up the token where it begins. -/
theorem Settled.spread {p : Parse Stmt} (hp : p.Settled f) (hwalks : p.Walks) (hf : f.Textual)
    (hend : f.atEnd = false) : Spread f (p f) := by
  have hone := hp.length_errors_le
  have hlt := hf.live.advance_lt hend (hwalks f)
  exact ⟨sparse_of_length_le hone, by omega⟩

/-- The diagnostics of a loop are sparse and can be charged to its tokens. -/
theorem loop_spread (hf : f.Textual) (hdo : f.current.literal = "do") (hend : f.atEnd = false) :
    Spread f (loop f) := by
  by_cases hopening : f.peek.isMark "\x7b" = true
  · -- onto the opening brace and behind it
    have hmove := hf.live.moves_advance (Token.isEnd_of_isMark hopening)
    have hcurrent : f.advance.current.isEnd = false := by
      rw [Feed.current_advance hf.live.free]
      exact Token.isEnd_of_isMark hopening
    have hlen := congrArg List.length hmove.following
    have hlt := hf.advance.live.advance_lt hcurrent (.stay f.advance)
    obtain ⟨hsparse, hcharged⟩ := sparse_braced f.current hf.advance.advance
    have hle := (Feed.walk_advance (braced f.current f.advance.advance).feed).following_le
    rw [List.length_append, List.length_singleton] at hlen
    rw [loop_of_opening hopening]
    exact ⟨hsparse, by omega⟩
  · obtain ⟨hone, hbehind, hcharged⟩ := bare_spread f.current hf hdo hend
    rw [loop_of_no_opening (by simpa using hopening)]
    constructor
    · rw [Notes.errors_append]
      refine Sparse.append (sparse_of_length_le (Nat.le_refl 1)) (sparse_of_length_le hone) ?_
      intro d hd x hx
      obtain rfl := List.mem_singleton.mp hd
      exact hbehind x hx
    · rw [Notes.errors_append, List.length_append, Notes.one, List.length_singleton]
      dsimp only
      omega

/-- The diagnostics of a statement are sparse and can be charged to its tokens. -/
theorem statement_spread (hf : f.Textual) (hend : f.atEnd = false) : Spread f (statement f) := by
  obtain ⟨-, heq⟩ | ⟨hdo, heq⟩ | ⟨-, -, ⟨-, heq⟩ | ⟨-, heq⟩⟩ := statement_cases f
  · rw [heq]
    exact (settled_declaration f).spread walks_declaration hf hend
  · rw [heq]
    exact loop_spread hf hdo hend
  · rw [heq]
    exact (settled_assignment f).spread walks_assignment hf hend
  · rw [heq]
    exact (settled_reject _ f).spread (walks_reject rfl) hf hend

/-- The diagnostics of a row of statements are sparse, and there are no more of them than tokens
behind the first one. -/
theorem row_spread (hf : f.Textual) :
    Sparse (row f).notes.errors ∧ (row f).notes.errors.length ≤ f.following.length := by
  -- by the number of tokens behind the feed, which each round lowers
  induction hlen : f.following.length using Nat.strong_induction_on generalizing f with
  | _ n ih =>
      by_cases hend : f.atEnd = true
      · rw [row_of_atEnd hend]
        exact ⟨sparse_of_pairwise_before .nil, Nat.zero_le n⟩
      have hend' : f.atEnd = false := by simpa using hend
      have hwalk := walks_statement f
      have hstop := hf.of_walk hwalk
      have hlt := hf.live.advance_lt hend' hwalk
      obtain ⟨hsparse, hcharged⟩ := statement_spread hf hend'
      obtain ⟨hrest, hle⟩ := ih _ (by omega) hstop.advance rfl
      rw [row_of_not_atEnd hf.live hend', Notes.errors_append, List.length_append]
      refine ⟨?_, by omega⟩
      by_cases hnil : (statement f).feed.following = []
      · -- the statement stopped at the end of the input, so the rest of the row is empty
        have hatEnd := atEnd_of_following_eq_nil hstop.live hnil
        rw [Feed.advance_eq_self hnil, row_of_atEnd hatEnd, Notes.none, List.append_nil]
        exact hsparse
      · have hbefore := hwalk.before_next (walk_row hstop.advance.live) hf hnil
        exact hsparse.append hrest fun d hd => (hbefore d hd).2

end Parse

/-! ## Texts -/

/-- The feed on the tokens of a text is textual. -/
theorem textual_scan (source : String) : (Feed.ofTokens (scan source)).Textual := by
  have htokens := Feed.ofTokens_tokens (scan source)
  rw [closed_scan] at htokens
  refine ⟨Feed.live_ofTokens _, ?_, ?_⟩
  · rw [htokens]
    exact scan_pairwise_before source
  · rw [htokens]
    exact isProper_dropLast_scan source

/-- **How the diagnostics of the grammar are spread.** Each diagnostic that parsing a text raises
stands at one of its tokens. They come in the order of the text, no three of them stand at one
place, no two of them have the same wording and place, and there are no more of them than tokens in
front of the end of the input. -/
theorem syntaxErrors_spread (source : String) :
    (∀ d ∈ (parse (scan source)).errors, ∃ t ∈ scan source, d.position = t.position) ∧
    ((parse (scan source)).errors.Pairwise fun d e => d.position.NoLater e.position) ∧
    (∀ p, ((parse (scan source)).errors.countP fun d => d.position = p) ≤ 2) ∧
    ((parse (scan source)).errors.map fun d => (d.message, d.position)).Nodup ∧
    (parse (scan source)).errors.length + 1 ≤ (scan source).length := by
  have hf := textual_scan source
  have hwalk := Parse.walk_row hf.live
  have hlen := length_following_ofTokens (scan source)
  obtain ⟨hsparse, hcharged⟩ := Parse.row_spread hf
  rw [closed_scan] at hlen
  refine ⟨?_, ?_, ?_, ?_, ?_⟩
  · intro d hd
    have hplace := exists_token_of_mem_errors hd
    rwa [closed_scan] at hplace
  · rw [errors_parse]
    exact hwalk.pairwise_noLater hf
  · rw [errors_parse]
    exact hsparse.few
  · rw [errors_parse]
    exact hsparse.distinct
  · rw [errors_parse]
    omega

end DoWhile
