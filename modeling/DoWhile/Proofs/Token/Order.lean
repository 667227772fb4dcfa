import DoWhile.Proofs.Token.Layout

/-!
# The order of positions

Positions are ordered by line and then by column. Reading any character moves a position forward, a
line feed as much as any other, and every token in front of the end has at least one character; so
the positions of a scan are strictly increasing (`scan_pairwise_before`).
-/

set_option autoImplicit false

namespace DoWhile

namespace Position

/-- Does the first position come before the second: on an earlier line, or on the same one and
further to the left? -/
def Before (p q : Position) : Prop := p.line < q.line ∨ p.line = q.line ∧ p.column < q.column

/-- Is the first position the second one or before it? -/
def NoLater (p q : Position) : Prop := p = q ∨ p.Before q

/-- The order of places is transitive. -/
theorem Before.trans {p q r : Position} (hpq : p.Before q) (hqr : q.Before r) : p.Before r := by
  unfold Before at *
  omega

/-- Places of which one comes before the other are different. -/
theorem Before.ne {p q : Position} (h : p.Before q) : p ≠ q := by
  rintro rfl
  unfold Before at h
  omega

/-- A place before one that is no later than a third comes before the third. -/
theorem Before.trans_noLater {p q r : Position} (hpq : p.Before q) (hqr : q.NoLater r) :
    p.Before r := by
  rcases hqr with rfl | hqr
  · exact hpq
  · exact hpq.trans hqr

/-- A place no later than one that comes before a third comes before the third. -/
theorem NoLater.trans_before {p q r : Position} (hpq : p.NoLater q) (hqr : q.Before r) :
    p.Before r := by
  rcases hpq with rfl | hpq
  · exact hqr
  · exact hpq.trans hqr

/-- Being no later is transitive. -/
theorem NoLater.trans {p q r : Position} (hpq : p.NoLater q) (hqr : q.NoLater r) :
    p.NoLater r := by
  rcases hpq with rfl | hpq
  · exact hqr
  · exact .inr (hpq.trans_noLater hqr)

/-- A place comes before the one behind a further character. -/
theorem before_after (p : Position) (c : Char) : p.Before (p.after c) := by
  unfold Before after
  split <;> dsimp only <;> omega

/-- A text ends no earlier than it begins. -/
theorem noLater_afterAll (p : Position) (cs : List Char) : p.NoLater (p.afterAll cs) := by
  induction cs generalizing p with
  | nil => exact .inl rfl
  | cons c cs ih => exact .inr ((p.before_after c).trans_noLater (ih (p.after c)))

/-- A text that is not empty ends further on than it begins. -/
theorem before_afterAll (p : Position) {cs : List Char} (hcs : cs ≠ []) :
    p.Before (p.afterAll cs) := by
  cases cs with
  | nil => exact absurd rfl hcs
  | cons c cs => exact (p.before_after c).trans_noLater ((p.after c).noLater_afterAll cs)

end Position

namespace Layout

/-- No token of a layout stands before the place where the layout begins. -/
theorem noLater_of_mem (l : Layout) {p : Position} {t : Token} (ht : t ∈ l.tokensFrom p) :
    p.NoLater t.position := by
  induction l generalizing p with
  | last gap =>
      rw [tokensFrom, List.mem_singleton] at ht
      subst ht
      exact p.noLater_afterAll gap
  | next gap x more ih =>
      have hgap := p.noLater_afterAll gap
      rw [tokensFrom, List.mem_cons] at ht
      rcases ht with rfl | ht
      · exact hgap
      · exact hgap.trans ((Position.noLater_afterAll _ x.literal.toList).trans (ih ht))

/-- Each token of a layout of proper lexemes stands before those behind it. -/
theorem pairwise_before (l : Layout) (hproper : ∀ x ∈ l.lexemes, x.isProper = true)
    (p : Position) : (l.tokensFrom p).Pairwise fun t u => t.position.Before u.position := by
  induction l generalizing p with
  | last gap => exact List.pairwise_singleton _ _
  | next gap x more ih =>
      rw [lexemes, List.forall_mem_cons] at hproper
      rw [tokensFrom, List.pairwise_cons]
      refine ⟨?_, ih hproper.2 _⟩
      intro u hu
      obtain ⟨c, cs, hcs, -⟩ := Lexeme.leads_of_isProper hproper.1
      have hne : x.literal.toList ≠ [] := by
        rw [hcs]
        exact List.cons_ne_nil c cs
      exact (Position.before_afterAll _ hne).trans_noLater (more.noLater_of_mem hu)

end Layout

/-- The tokens of a scan, the end among them, stand one before the other. -/
theorem scan_pairwise_before (source : String) :
    (scan source).Pairwise fun t u => t.position.Before u.position := by
  obtain ⟨l, hl, htext⟩ := exists_sound_text source.toList
  rw [scan_text hl htext]
  exact l.pairwise_before hl.proper Position.start

end DoWhile
