import DoWhile.Proofs.Parse.Trail

/-!
# Walks of a feed

Whatever a parse does to its feed is a walk: at each point it raises a diagnostic at the token under
examination or moves on by one token (`Feed.Walk`). A walk forgets what a trail knows of the
complaints, so it says what any reading can do, whether it succeeds or not and whatever it was told
to ask for; where diagnostics stand and how far the feed got is read off a walk
(`Feed.Walk.exists_moves`).

A trail is a walk (`Feed.Trail.walk`), and so every parse of the grammar walks.
-/

set_option autoImplicit false

namespace DoWhile

/-- Is the complaint one that reading raises: of a token, or for want of one? -/
def Complaint.ofReading : Complaint → Bool
  | unexpected _ => true
  | expected _ _ => true
  | _ => false

namespace Feed

/-- The feed goes from `f` to `g`, and the diagnostics `ds` are raised on the way. -/
inductive Walk : Feed → List Diagnostic → Feed → Prop
  | stay (f : Feed) : Walk f [] f
  | raise {f g : Feed} {ds : List Diagnostic} {c : Complaint} (hc : c.ofReading = true)
      (h : Walk f ds g) : Walk f (⟨.grammar, c, f.current.position⟩ :: ds) g
  | step {f g : Feed} {ds : List Diagnostic} (h : Walk f.advance ds g) : Walk f ds g

/-- Walks can be made one behind the other. -/
theorem Walk.trans {f g h : Feed} {ds es : List Diagnostic} (hfg : f.Walk ds g)
    (hgh : g.Walk es h) : f.Walk (ds ++ es) h := by
  induction hfg with
  | stay f => exact hgh
  | raise hc _ ih => exact .raise hc (ih hgh)
  | step _ ih => exact .step (ih hgh)

/-- Moving on is a walk without diagnostics. -/
theorem walk_advance (f : Feed) : f.Walk [] f.advance := .step (.stay f.advance)

/-- A trail is a walk with the diagnostics of its notes. -/
theorem Trail.walk {f g : Feed} {n : Notes} (h : f.Trail n g) : f.Walk n.errors g := by
  induction h with
  | stay f => exact .stay f
  | @raise f g n c hc _ ih =>
      have hreading : c.ofReading = true := by
        cases c with
        | unexpected found => rfl
        | expected wanted found => rfl
        | _ => exact hc.elim
      exact .raise hreading ih
  | step _ ih => exact .step ih

/-- Skipping to a text is a walk without diagnostics. -/
theorem walk_skipTo (w : String) (f : Feed) : f.Walk [] (f.skipTo w) := (trail_skipTo w f).walk

/-! ## What a walk leaves behind -/

/-- A feed moves on by one token or stays where it is. -/
theorem advance_cases (f : Feed) : f.advance = f ∨ f.Moves [f.advance.current] f.advance := by
  obtain ⟨current, following, held⟩ := f
  cases held with
  | true => exact .inl rfl
  | false =>
      cases following with
      | nil => exact .inl rfl
      | cons t ts => exact .inr ⟨rfl, rfl, rfl⟩

/-- A walk moves onto tokens one by one, and each of its diagnostics stands at one of them or at the
token where it began. -/
theorem Walk.exists_moves {f g : Feed} {ds : List Diagnostic} (h : f.Walk ds g) :
    ∃ us, f.Moves us g ∧ ∀ d ∈ ds, d.complaint.ofReading = true ∧
      ∃ t ∈ f.current :: us, d.position = t.position := by
  induction h with
  | stay f => exact ⟨[], Moves.refl f, by simp⟩
  | @raise f g ds c hc _ ih =>
      obtain ⟨us, hmoves, hplaces⟩ := ih
      refine ⟨us, hmoves, List.forall_mem_cons.mpr ⟨⟨hc, f.current, by simp, rfl⟩, hplaces⟩⟩
  | @step f g ds _ ih =>
      obtain ⟨us, hmoves, hplaces⟩ := ih
      obtain hstays | hmove := f.advance_cases
      · rw [hstays] at hmoves hplaces
        exact ⟨us, hmoves, hplaces⟩
      · refine ⟨f.advance.current :: us, hmove.trans hmoves, ?_⟩
        intro d hd
        obtain ⟨hc, t, ht, hposition⟩ := hplaces d hd
        exact ⟨hc, t, List.mem_cons_of_mem _ ht, hposition⟩

/-- On a walk the tokens that follow become no more. -/
theorem Walk.following_le {f g : Feed} {ds : List Diagnostic} (h : f.Walk ds g) :
    g.following.length ≤ f.following.length := by
  obtain ⟨us, hmoves, -⟩ := h.exists_moves
  rw [hmoves.following, List.length_append]
  exact Nat.le_add_left _ _

/-- A walk does not leave the last token. -/
theorem Walk.following_eq_nil {f g : Feed} {ds : List Diagnostic} (h : f.Walk ds g)
    (hnil : f.following = []) : g.following = [] := by
  have hle := h.following_le
  rw [hnil] at hle
  exact List.length_eq_zero_iff.mp (Nat.le_zero.mp hle)

/-- A feed with no token behind it stays where it is. -/
theorem advance_eq_self {f : Feed} (hnil : f.following = []) : f.advance = f := by
  obtain hstays | hmove := f.advance_cases
  · exact hstays
  · have hfollowing := hmove.following
    rw [hnil] at hfollowing
    exact absurd hfollowing.symm (List.cons_ne_nil _ _)

/-- On a walk the list keeps ending in an end token. -/
theorem Walk.live {f g : Feed} {ds : List Diagnostic} (h : f.Walk ds g) (hf : f.Live) :
    g.Live := by
  obtain ⟨us, hmoves, -⟩ := h.exists_moves
  exact hf.of_moves hmoves

end Feed

namespace Parse

variable {α β : Type} {p : Parse α} {q : α → Parse β}

/-- At every feed, the parse is a walk of the feed. -/
def Walks (p : Parse α) : Prop := ∀ f : Feed, f.Walk (p f).notes.errors (p f).feed

/-- A parse walks the feed if its outcome is that of one that does. -/
theorem walk_congr {p' : Parse α} {f : Feed} (heq : p f = p' f)
    (h : f.Walk (p' f).notes.errors (p' f).feed) : f.Walk (p f).notes.errors (p f).feed := by
  rw [heq]
  exact h

/-! ## Walks of the combinators -/

/-- Giving a value walks the feed. -/
theorem walks_pure (a : α) : (pure a : Parse α).Walks := fun f => .stay f

/-- Moving on walks the feed. -/
theorem walks_advance : advance.Walks := Feed.walk_advance

/-- Rejecting walks the feed if the complaint is one of reading. -/
theorem walks_reject {c : Complaint} (hc : c.ofReading = true) : (reject c : Parse α).Walks :=
  fun f => .raise hc (.stay f)

/-- A parse and what comes behind it walk the feed. -/
theorem walks_bind (hp : p.Walks) (hq : ∀ a, (q a).Walks) : (p >>= q).Walks := by
  intro f
  cases hvalue : (p f).value with
  | none =>
      rw [bind_of_none hvalue]
      exact hp f
  | some a =>
      rw [bind_of_some hvalue, Notes.errors_append]
      exact (hp f).trans (hq a (p f).feed)

/-- Expecting a token walks the feed. -/
theorem walks_expectThat (test : Token → Bool) (wanted : Expectation) :
    (expectThat test wanted).Walks := by
  intro f
  by_cases htest : test f.peek = true
  · exact walk_congr (by rw [expectThat, if_pos htest]) (walks_advance f)
  · exact walk_congr (by rw [expectThat, if_neg htest]) (walks_reject rfl f)

/-- Expecting a text walks the feed. -/
theorem walks_expect (literal : String) (wanted : Expectation) : (expect literal wanted).Walks :=
  walks_expectThat _ wanted

/-- Expecting a kind walks the feed. -/
theorem walks_expectKind (kind : Token.Kind) (wanted : Expectation) :
    (expectKind kind wanted).Walks := walks_expectThat _ wanted

/-! ## Walks of the grammar -/

/-- A parse that leaves a trail walks the feed. -/
theorem Trails.walks (hp : p.Trails) : p.Walks := fun f => (hp f).walk

/-- Reading an operand walks the feed. -/
theorem walks_operand : operand.Walks := trails_operand.walks

/-- Reading an expression walks the feed. -/
theorem walks_expression : expression.Walks := trails_expression.walks

/-- Reading a comparison walks the feed. -/
theorem walks_comparison : comparison.Walks := trails_comparison.walks

/-- Reading a declaration walks the feed. -/
theorem walks_declaration : declaration.Walks := trails_declaration.walks

/-- Reading an assignment walks the feed. -/
theorem walks_assignment : assignment.Walks := trails_assignment.walks

/-- Reading a condition walks the feed. -/
theorem walks_condition : condition.Walks := trails_condition.walks

/-- Reading an item of a loop body walks the feed. -/
theorem walks_bodyItem : bodyItem.Walks := trails_bodyItem.walks

/-- The rounds of a loop body walk the feed. -/
theorem BodyRun.walk {f : Feed} {st : Stretch} (h : BodyRun f st) :
    f.Walk st.notes.errors st.feed := h.trail.walk

/-- Reading the items of a loop body walks the feed. -/
theorem walks_items : items.Walks := trails_items.walks

/-- Reading a body with its closing brace walks the feed. -/
theorem walks_closedBody : closedBody.Walks := trails_closedBody.walks

/-- Looking for the condition walks the feed. -/
theorem walks_seekCondition : seekCondition.Walks := trails_seekCondition.walks

/-- Reading a loop walks the feed. -/
theorem walks_loop : loop.Walks := trails_loop.walks

/-- Reading a statement walks the feed. -/
theorem walks_statement : statement.Walks := trails_statement.walks

end Parse

end DoWhile
