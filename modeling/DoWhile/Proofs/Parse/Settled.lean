import DoWhile.Proofs.Parse.Yield

/-!
# Settled parses

A parse is settled at a feed if it either yields or fails with exactly one diagnostic
(`Parse.Settled`). Settled parses are closed under sequencing: what comes second is read only if
the first yields. All parses below the loop are settled at every feed, so none of their failures
is silent and none is reported twice.

A loop may raise several diagnostics and give a value all the same. It is loud (`Parse.Loud`): if
it raises none, it yields.
-/

set_option autoImplicit false

namespace DoWhile.Parse

variable {α β : Type} {p : Parse α} {q : α → Parse β} {f g : Feed}

/-- The parse yields at the feed, or it fails with exactly one diagnostic. -/
def Settled (p : Parse α) (f : Feed) : Prop :=
  (∃ a g, p.Yields f a g) ∨ ((p f).value = none ∧ ∃ d, (p f).notes.errors = [d])

/-- A settled parse that raises no diagnostic yields. -/
theorem Settled.yields (hp : p.Settled f) (hquiet : (p f).notes.errors = []) :
    ∃ a g, p.Yields f a g := by
  obtain hyields | ⟨-, d, hd⟩ := hp
  · exact hyields
  · rw [hquiet] at hd
    exact absurd hd (by simp)

/-- A parse that yields is settled. -/
theorem settled_of_yields {a : α} (hp : p.Yields f a g) : p.Settled f := .inl ⟨a, g, hp⟩

/-- A rejection is settled. -/
theorem settled_reject (c : Complaint) (f : Feed) : (reject c : Parse α).Settled f :=
  .inr ⟨rfl, _, rfl⟩

/-- Sequencing keeps parses settled: what comes second is read only if the first yields. -/
theorem settled_bind (hp : p.Settled f) (hq : ∀ a g, p.Yields f a g → (q a).Settled g) :
    (p >>= q).Settled f := by
  obtain ⟨a, g, hyields⟩ | ⟨hnone, d, hd⟩ := hp
  · obtain ⟨b, h, hb⟩ | ⟨hnone, d, hd⟩ := hq a g hyields
    · exact .inl ⟨b, h, yields_bind.mpr ⟨a, g, hyields, hb⟩⟩
    · obtain ⟨hvalue, rfl, hquiet⟩ := hyields
      refine .inr ⟨?_, d, ?_⟩
      · rw [bind_of_some hvalue, hnone]
      · rw [bind_of_some hvalue, Notes.errors_append, hquiet, hd, List.nil_append]
  · exact .inr ⟨by rw [bind_of_none hnone], d, by rw [bind_of_none hnone, hd]⟩

/-- A parse is settled if its outcome is that of a settled one. -/
theorem settled_congr {p' : Parse α} (heq : p f = p' f) (hp' : p'.Settled f) : p.Settled f := by
  obtain ⟨a, g, hyields⟩ | ⟨hnone, d, hd⟩ := hp'
  · exact settled_of_yields ((yields_congr heq).mpr hyields)
  · exact .inr ⟨by rw [heq, hnone], d, by rw [heq, hd]⟩

/-- Expecting a token is settled. -/
theorem settled_expectThat (test : Token → Bool) (wanted : Expectation) (f : Feed) :
    (expectThat test wanted).Settled f := by
  by_cases htest : test f.peek = true
  · exact settled_of_yields (a := ()) (yields_expectThat.mpr ⟨htest, rfl⟩)
  · exact settled_congr (by rw [expectThat, if_neg htest]) (settled_reject _ f)

/-- Expecting a text is settled. -/
theorem settled_expect (literal : String) (wanted : Expectation) (f : Feed) :
    (expect literal wanted).Settled f := settled_expectThat _ wanted f

/-- Expecting a kind is settled. -/
theorem settled_expectKind (kind : Token.Kind) (wanted : Expectation) (f : Feed) :
    (expectKind kind wanted).Settled f := settled_expectThat _ wanted f

/-- A settled parse stays settled if its failure is followed by a move. -/
theorem settled_orMove {m : Feed → Feed} (hp : p.Settled f) : (p.orMove m).Settled f := by
  obtain ⟨a, g, hyields⟩ | ⟨hnone, d, hd⟩ := hp
  · exact settled_of_yields (yields_orMove.mpr hyields)
  · have heq : p.orMove m f = ⟨none, m (p f).feed, (p f).notes⟩ := by simp only [orMove, hnone]
    exact .inr ⟨by rw [heq], d, by rw [heq, hd]⟩

/-- Giving a value is settled. -/
theorem settled_pure (a : α) (f : Feed) : (pure a : Parse α).Settled f :=
  settled_of_yields (yields_pure.mpr ⟨rfl, rfl⟩)

/-- Looking at the current token is settled. -/
theorem settled_current (f : Feed) : current.Settled f :=
  settled_of_yields (yields_current.mpr ⟨rfl, rfl⟩)

/-- Looking at the next token is settled. -/
theorem settled_peek (f : Feed) : peek.Settled f :=
  settled_of_yields (yields_peek.mpr ⟨rfl, rfl⟩)

/-- Moving on is settled. -/
theorem settled_advance (f : Feed) : advance.Settled f :=
  settled_of_yields (a := ()) (yields_advance.mpr rfl)

/-! ## The parses of the grammar -/

/-- Reading an operand is settled. -/
theorem settled_operand (f : Feed) : operand.Settled f := by
  unfold operand
  refine settled_bind (settled_current f) fun t g _ => ?_
  cases hkind : t.kind with
  | identifier => exact settled_pure _ g
  | number => exact settled_pure _ g
  | reserved => exact settled_reject _ g
  | symbol => exact settled_reject _ g
  | endOfInput => exact settled_reject _ g
  | error => exact settled_reject _ g

/-- Reading an expression is settled. -/
theorem settled_expression (f : Feed) : expression.Settled f := by
  unfold expression
  refine settled_bind (settled_operand f) fun left g _ => ?_
  refine settled_bind (settled_peek g) fun t g' _ => ?_
  by_cases hsign : isArithmetic t.toLexeme = true
  · rw [if_pos hsign]
    refine settled_bind (settled_advance g') fun _ g _ => ?_
    refine settled_bind (settled_current g) fun sign g _ => ?_
    refine settled_bind (settled_advance g) fun _ g _ => ?_
    exact settled_bind (settled_operand g) fun right g _ => settled_pure _ g
  · rw [if_neg hsign]
    exact settled_pure left g'

/-- Reading a comparison is settled. -/
theorem settled_comparison (f : Feed) : comparison.Settled f := by
  unfold comparison
  refine settled_bind (settled_operand f) fun left g _ => ?_
  refine settled_bind (settled_expect _ _ g) fun _ g _ => ?_
  refine settled_bind (settled_advance g) fun _ g _ => ?_
  exact settled_bind (settled_operand g) fun right g _ => settled_pure _ g

/-- Reading a declaration is settled. -/
theorem settled_declaration (f : Feed) : declaration.Settled f := by
  unfold declaration
  refine settled_bind (settled_current f) fun first g _ => ?_
  refine settled_bind (settled_expectKind _ _ g) fun _ g _ => ?_
  refine settled_bind (settled_current g) fun name g _ => ?_
  refine settled_bind (settled_expect _ _ g) fun _ g _ => ?_
  refine settled_bind (settled_advance g) fun _ g _ => ?_
  refine settled_bind (settled_expression g) fun value g _ => ?_
  exact settled_bind (settled_expect _ _ g) fun _ g _ => settled_pure _ g

/-- Reading an assignment is settled. -/
theorem settled_assignment (f : Feed) : assignment.Settled f := by
  unfold assignment
  refine settled_bind (settled_current f) fun first g _ => ?_
  refine settled_bind (settled_expect _ _ g) fun _ g _ => ?_
  refine settled_bind (settled_advance g) fun _ g _ => ?_
  refine settled_bind (settled_expression g) fun value g _ => ?_
  exact settled_bind (settled_expect _ _ g) fun _ g _ => settled_pure _ g

/-- Reading a condition is settled. -/
theorem settled_condition (f : Feed) : condition.Settled f := by
  unfold condition
  refine settled_bind (settled_expect _ _ f) fun _ g _ => ?_
  refine settled_bind (settled_advance g) fun _ g _ => ?_
  refine settled_bind (settled_orMove (settled_comparison g)) fun test g _ => ?_
  refine settled_bind (settled_expect _ _ g) fun _ g _ => ?_
  exact settled_bind (settled_expect _ _ g) fun _ g _ => settled_pure _ g

/-- Reading an item of a loop body is settled. -/
theorem settled_bodyItem (f : Feed) : bodyItem.Settled f := by
  by_cases hstarts : startsAssignment f = true
  · exact settled_congr (by rw [bodyItem, if_pos hstarts]) (settled_assignment f)
  · exact settled_congr (by rw [bodyItem, if_neg hstarts]) (settled_reject _ f)

/-! ## Loud parses -/

/-- The parse yields at the feed unless it raises a diagnostic. -/
def Loud (p : Parse α) (f : Feed) : Prop :=
  (p f).notes.errors = [] → ∃ a g, p.Yields f a g

/-- A settled parse is loud. -/
theorem Settled.loud (hp : p.Settled f) : p.Loud f := fun hquiet => hp.yields hquiet

/-- A parse is loud if its outcome is that of a loud one. -/
theorem loud_congr {p' : Parse α} (heq : p f = p' f) (hp' : p'.Loud f) : p.Loud f := by
  intro hquiet
  rw [heq] at hquiet
  obtain ⟨a, g, hyields⟩ := hp' hquiet
  exact ⟨a, g, (yields_congr heq).mpr hyields⟩

/-- Parses that are loud are so one behind the other. -/
theorem loud_bind (hp : p.Loud f) (hq : ∀ a g, p.Yields f a g → (q a).Loud g) :
    (p >>= q).Loud f := by
  intro hquiet
  have hfirst : (p f).notes.errors = [] := by
    cases hvalue : (p f).value with
    | none => rwa [bind_of_none hvalue] at hquiet
    | some a =>
        rw [bind_of_some hvalue, Notes.errors_append, List.append_eq_nil_iff] at hquiet
        exact hquiet.1
  obtain ⟨a, g, hyields⟩ := hp hfirst
  obtain ⟨hvalue, rfl, -⟩ := id hyields
  rw [bind_of_some hvalue, Notes.errors_append, List.append_eq_nil_iff] at hquiet
  obtain ⟨b, h, hb⟩ := hq a _ hyields hquiet.2
  exact ⟨b, h, yields_bind.mpr ⟨a, _, hyields, hb⟩⟩

/-- Asking whether a settled parse succeeds is quiet only if it does. -/
theorem yields_succeeds {b : Bool} (hp : p.Settled f) :
    p.succeeds.Yields f b g ↔ b = true ∧ ∃ a, p.Yields f a g := by
  constructor
  · rintro ⟨hvalue, hfeed, hquiet⟩
    obtain ⟨a, g', hyields⟩ := hp.yields hquiet
    obtain rfl : g' = g := by rw [← hyields.feed, ← hfeed]; rfl
    have hsome : (p f).value.isSome = b := Option.some.inj hvalue
    rw [hyields.value, Option.isSome_some] at hsome
    exact ⟨hsome.symm, a, hyields⟩
  · rintro ⟨rfl, a, hvalue, hfeed, hquiet⟩
    exact ⟨by simp [succeeds, hvalue], hfeed, hquiet⟩

/-- Asking whether a settled parse succeeds is loud. -/
theorem loud_succeeds (hp : p.Settled f) : p.succeeds.Loud f := by
  intro hquiet
  obtain ⟨a, g, hyields⟩ := hp.yields hquiet
  exact ⟨true, g, (yields_succeeds hp).mpr ⟨rfl, a, hyields⟩⟩

end DoWhile.Parse
