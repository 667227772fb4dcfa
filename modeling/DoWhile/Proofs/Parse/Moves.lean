import DoWhile.Feed

/-!
# How a feed moves

A live feed is one that is not held and whose last token is an end token; every feed on a closed
token list is live (`Feed.live_ofTokens`). `f.Moves us g` says that `g` is the feed `f` after
moving onto each of the tokens `us` in turn. Moves are composed one token at a time: a live feed
that looks at anything but an end token moves onto it (`Feed.Live.moves_advance`).
-/

set_option autoImplicit false

namespace DoWhile

/-- The last token of a row is the last one behind any of its tokens. -/
theorem getLastD_append_cons {α : Type} (us ts : List α) (t d : α) :
    (us ++ t :: ts).getLastD d = ts.getLastD t := by
  induction us generalizing d with
  | nil => rw [List.nil_append, List.getLastD_cons]
  | cons u us ih => rw [List.cons_append, List.getLastD_cons, ih]

namespace Feed

/-- A feed that is not held, on a token list that ends in an end token. -/
structure Live (f : Feed) : Prop where
  free : f.held = false
  ends : (f.following.getLastD f.current).isEnd = true

/-- The feed `g` is `f` after moving onto the tokens `us` one by one. -/
structure Moves (f : Feed) (us : List Token) (g : Feed) : Prop where
  held : g.held = f.held
  following : f.following = us ++ g.following
  current : g.current = us.getLastD f.current

/-- Moving onto no token is standing still. -/
theorem Moves.refl (f : Feed) : f.Moves [] f := ⟨rfl, rfl, rfl⟩

/-- Moves can be made one behind the other. -/
theorem Moves.trans {f g h : Feed} {us vs : List Token} (hfg : f.Moves us g)
    (hgh : g.Moves vs h) : f.Moves (us ++ vs) h := by
  refine ⟨?_, ?_, ?_⟩
  · rw [hgh.held, hfg.held]
  · rw [hfg.following, hgh.following, List.append_assoc]
  · rw [hgh.current, hfg.current]
    cases vs with
    | nil => rw [List.append_nil, List.getLastD_nil]
    | cons v vs => rw [getLastD_append_cons, List.getLastD_cons]

/-- A feed that moved onto no token is where it was. -/
theorem Moves.eq_of_nil {f g : Feed} (h : f.Moves [] g) : g = f := by
  obtain ⟨current, following, held⟩ := f
  obtain ⟨current', following', held'⟩ := g
  obtain ⟨hheld, hfollowing, hcurrent⟩ := h
  dsimp only at hheld hfollowing hcurrent
  rw [hheld, hcurrent, hfollowing]
  rfl

/-- A free feed looks at the token that it would move onto. -/
theorem current_advance {f : Feed} (hf : f.held = false) : f.advance.current = f.peek := by
  obtain ⟨current, following, held⟩ := f
  subst hf
  cases following <;> rfl

/-- A move onto two rows of tokens comes by the feed between them. -/
theorem Moves.of_append {f h : Feed} {us vs : List Token} (hfh : f.Moves (us ++ vs) h) :
    ∃ g, f.Moves us g ∧ g.Moves vs h := by
  obtain ⟨hheld, hfollowing, hcurrent⟩ := hfh
  rw [List.append_assoc] at hfollowing
  refine ⟨⟨us.getLastD f.current, vs ++ h.following, f.held⟩, ⟨rfl, hfollowing, rfl⟩,
    hheld, rfl, ?_⟩
  rw [hcurrent]
  cases vs with
  | nil => rw [List.append_nil, List.getLastD_nil]
  | cons v vs => rw [getLastD_append_cons, List.getLastD_cons]

/-- A live feed stays live wherever it moves. -/
theorem Live.of_moves {f g : Feed} {us : List Token} (hf : f.Live) (hfg : f.Moves us g) :
    g.Live := by
  refine ⟨by rw [hfg.held, hf.free], ?_⟩
  have hends := hf.ends
  rw [hfg.following] at hends
  rw [hfg.current]
  cases hg : g.following with
  | nil => rwa [hg, List.append_nil] at hends
  | cons v vs => rwa [hg, getLastD_append_cons, ← List.getLastD_cons (a := us.getLastD f.current)]
      at hends

/-- A live feed that moves onto tokens looks at the first of them, and advances onto it. -/
theorem Live.of_cons {f g : Feed} {u : Token} {us : List Token} (hf : f.Live)
    (h : f.Moves (u :: us) g) :
    f.peek = u ∧ f.advance.current = u ∧ f.advance.Live ∧ f.advance.Moves us g := by
  obtain ⟨current, following, held⟩ := f
  obtain ⟨hfree, hends⟩ := hf
  obtain ⟨hheld, hfollowing, hcurrent⟩ := h
  dsimp only at hfree hends hheld hfollowing hcurrent
  subst hfree hfollowing
  rw [List.getLastD_cons] at hcurrent
  rw [List.cons_append, List.getLastD_cons] at hends
  exact ⟨rfl, rfl, ⟨rfl, hends⟩, hheld, rfl, hcurrent⟩

/-- The tokens behind a live feed that does not stand on an end token. -/
theorem Live.following_ne_nil {f : Feed} (hf : f.Live) (hcurrent : f.current.isEnd = false) :
    f.following ≠ [] := by
  intro hnil
  have hends := hf.ends
  rw [hnil, List.getLastD_nil, hcurrent] at hends
  exact absurd hends (by decide)

/-- A live feed that is followed by a token moves onto it. -/
theorem Live.moves_of_following {f : Feed} (hf : f.Live) (hne : f.following ≠ []) :
    f.Moves [f.peek] f.advance := by
  obtain ⟨current, following, held⟩ := f
  have hfree : held = false := hf.free
  subst hfree
  cases following with
  | nil => exact absurd rfl hne
  | cons u us => exact ⟨rfl, rfl, rfl⟩

/-- A live feed that looks at anything but an end token moves onto it. -/
theorem Live.moves_advance {f : Feed} (hf : f.Live) (hpeek : f.peek.isEnd = false) :
    f.Moves [f.peek] f.advance := by
  apply hf.moves_of_following
  intro hnil
  have hends := hf.ends
  rw [hnil, List.getLastD_nil] at hends
  rw [peek, hnil, List.headD_nil, hends] at hpeek
  exact absurd hpeek (by decide)

/-- Moving on keeps the list ending in an end token. -/
theorem Live.advance {f : Feed} (hf : f.Live) : f.advance.Live := by
  by_cases hnil : f.following = []
  · obtain ⟨current, following, held⟩ := f
    obtain rfl : following = [] := hnil
    have hsame : Feed.advance ⟨current, [], held⟩ = ⟨current, [], held⟩ := by
      cases held <;> rfl
    rw [hsame]
    exact hf
  · exact hf.of_moves (hf.moves_of_following hnil)

/-- On a token that is no end token, a live feed has more tokens in front of it. -/
theorem Live.following_advance_ne_nil {f : Feed} (hf : f.Live) (hpeek : f.peek.isEnd = false) :
    f.advance.following ≠ [] := by
  apply hf.advance.following_ne_nil
  rw [current_advance hf.free, hpeek]

/-! ## Passing tokens -/

/-- The feed `g` is `f` after moving past the tokens `us`, the first of which is the one under
examination at `f`. -/
structure Passes (f : Feed) (us : List Token) (g : Feed) : Prop where
  held : g.held = f.held
  tokens : f.current :: f.following = us ++ g.current :: g.following

/-- Passing no token is standing still. -/
theorem Passes.refl (f : Feed) : f.Passes [] f := ⟨rfl, rfl⟩

/-- Tokens can be passed one row behind the other. -/
theorem Passes.trans {f g h : Feed} {us vs : List Token} (hfg : f.Passes us g)
    (hgh : g.Passes vs h) : f.Passes (us ++ vs) h :=
  ⟨by rw [hgh.held, hfg.held], by rw [hfg.tokens, hgh.tokens, List.append_assoc]⟩

/-- A feed that passed no token is where it was. -/
theorem Passes.eq_of_nil {f g : Feed} (h : f.Passes [] g) : g = f := by
  obtain ⟨current, following, held⟩ := f
  obtain ⟨current', following', held'⟩ := g
  obtain ⟨hheld, htokens⟩ := h
  obtain ⟨hcurrent, hfollowing⟩ := List.cons.inj htokens
  dsimp only at hheld hcurrent hfollowing
  rw [hheld, hcurrent, hfollowing]

/-- A feed that passes tokens stands on the first of them, and else where that ends. -/
theorem Passes.current {f g : Feed} {us : List Token} (h : f.Passes us g) :
    f.current = us.headD g.current := by
  cases us with
  | nil => rw [h.eq_of_nil, List.headD_nil]
  | cons u us => exact (List.cons.inj h.tokens).1

/-- A free feed that can move on stands on the first of the tokens that follow it. -/
theorem current_cons_following_advance {f : Feed} (hf : f.held = false) (hne : f.following ≠ []) :
    f.following = f.advance.current :: f.advance.following := by
  obtain ⟨current, following, held⟩ := f
  obtain rfl : held = false := hf
  cases following with
  | nil => exact absurd rfl hne
  | cons u us => rfl

/-- Moving on neither holds nor frees a feed. -/
theorem held_advance (f : Feed) : f.advance.held = f.held := by
  obtain ⟨current, following, held⟩ := f
  cases held with
  | false => cases following <;> rfl
  | true => rfl

/-- Moving onto tokens and then one further is moving past the tokens examined on the way. -/
theorem Moves.passes {f g : Feed} {us : List Token} (hg : g.held = false) (hfg : f.Moves us g)
    (hne : g.following ≠ []) : f.Passes (f.current :: us) g.advance := by
  refine ⟨by rw [held_advance, hfg.held], ?_⟩
  rw [List.cons_append, ← current_cons_following_advance hg hne, hfg.following]

/-- Moving onto tokens, the last of which is `t`, is passing the others from the current one on. -/
theorem Moves.passes_concat {f g : Feed} {us : List Token} {t : Token} (h : f.Moves (us ++ [t]) g) :
    f.Passes (f.current :: us) g ∧ g.current = t := by
  have hcurrent : g.current = t := by rw [h.current, getLastD_append_cons, List.getLastD_nil]
  refine ⟨⟨h.held, ?_⟩, hcurrent⟩
  rw [h.following, hcurrent, List.append_assoc]
  rfl

/-- Moving onto tokens is passing all that were examined before the last one. -/
theorem Moves.exists_passes {f g : Feed} {us : List Token} (h : f.Moves us g) :
    ∃ ts, f.current :: us = ts ++ [g.current] ∧ f.Passes ts g := by
  rcases List.eq_nil_or_concat us with rfl | ⟨vs, v, rfl⟩
  · obtain rfl := h.eq_of_nil
    exact ⟨[], rfl, Passes.refl g⟩
  · rw [List.concat_eq_append] at h ⊢
    obtain ⟨hpasses, hlast⟩ := h.passes_concat
    exact ⟨f.current :: vs, by rw [hlast, List.cons_append], hpasses⟩

/-- Passing two runs of tokens, the first of which begins with `t`, is moving to the end of the
first and passing the second from one token further. -/
theorem Passes.moves_of_append {f h : Feed} {t : Token} {us vs : List Token}
    (hf : f.held = false) (hfh : f.Passes (t :: us ++ vs) h) :
    f.current = t ∧ ∃ g, f.Moves us g ∧ g.following ≠ [] ∧ g.advance.Passes vs h := by
  obtain ⟨current, following, held⟩ := f
  obtain ⟨hheld, htokens⟩ := hfh
  rw [List.cons_append, List.cons_append, List.append_assoc] at htokens
  obtain ⟨hcurrent, hfollowing⟩ := List.cons.inj htokens
  dsimp only at hf hheld hcurrent hfollowing
  subst hf
  have hne : vs ++ h.current :: h.following ≠ [] := by simp
  refine ⟨hcurrent, ⟨us.getLastD current, vs ++ h.current :: h.following, false⟩,
    ⟨rfl, hfollowing, rfl⟩, hne, ?_⟩
  have hstep := current_cons_following_advance
    (f := ⟨us.getLastD current, vs ++ h.current :: h.following, false⟩) rfl hne
  exact ⟨by rw [hheld, held_advance], hstep.symm⟩

/-- Passing tokens is moving onto all of them but the first, and then one further. -/
theorem Passes.exists_moves {f h : Feed} {t : Token} {us : List Token} (hf : f.held = false)
    (hfh : f.Passes (t :: us) h) : f.current = t ∧ ∃ g, f.Moves us g ∧ g.advance = h := by
  rw [← List.append_nil (t :: us)] at hfh
  obtain ⟨hcurrent, g, hmoves, -, hpasses⟩ := hfh.moves_of_append hf
  exact ⟨hcurrent, g, hmoves, hpasses.eq_of_nil.symm⟩

/-- Where a feed has passed a token, it can move on from it. -/
theorem Passes.of_cons {f g : Feed} {t : Token} {ts : List Token} (hf : f.held = false)
    (h : f.Passes (t :: ts) g) : f.current = t ∧ f.advance.Passes ts g := by
  have hsplit : f.Passes (t :: [] ++ ts) g := h
  obtain ⟨hcurrent, h', hmoves, -, hpasses⟩ := hsplit.moves_of_append hf
  rw [hmoves.eq_of_nil] at hpasses
  exact ⟨hcurrent, hpasses⟩

/-- Passing tokens behind the current one is moving onto them and onto the one where that ends. -/
theorem moves_concat_iff {f g : Feed} {us : List Token} {t : Token} (hf : f.held = false)
    (hne : f.following ≠ []) :
    f.Moves (us ++ [t]) g ↔ f.advance.Passes us g ∧ g.current = t := by
  have hfollowing := current_cons_following_advance hf hne
  constructor
  · rintro ⟨hheld, hmoves, hcurrent⟩
    have hlast : g.current = t := by
      rw [hcurrent, getLastD_append_cons, List.getLastD_nil]
    refine ⟨⟨by rw [hheld, held_advance], ?_⟩, hlast⟩
    rw [← hfollowing, hmoves, hlast, List.append_assoc, List.singleton_append]
  · rintro ⟨⟨hheld, htokens⟩, rfl⟩
    refine ⟨by rw [hheld, held_advance], ?_, ?_⟩
    · rw [hfollowing, htokens, List.append_assoc, List.singleton_append]
    · rw [getLastD_append_cons, List.getLastD_nil]

end Feed

/-! ## Closed token lists -/

/-- A closed list ends in an end token. -/
theorem closed_eq_append (ts : List Token) :
    ∃ front e, closed ts = front ++ [e] ∧ e.isEnd = true := by
  rcases List.eq_nil_or_concat ts with rfl | ⟨front, t, rfl⟩
  · exact ⟨[], Token.endAt Position.start, rfl, rfl⟩
  · by_cases ht : t.isEnd = true
    · exact ⟨front, t, by simp [closed, missingEnd, ht], ht⟩
    · exact ⟨front ++ [t], _, by simp [closed, missingEnd, ht]; rfl, rfl⟩

/-- A closed list is not empty. -/
theorem closed_ne_nil (ts : List Token) : closed ts ≠ [] := by
  obtain ⟨front, e, heq, -⟩ := closed_eq_append ts
  simp [heq]

namespace Feed

/-- A feed at the beginning of a token list has the whole closed list before it. -/
theorem ofTokens_tokens (ts : List Token) :
    (ofTokens ts).current :: (ofTokens ts).following = closed ts := by
  unfold ofTokens
  cases hts : closed ts with
  | nil => exact absurd hts (closed_ne_nil ts)
  | cons t us => rfl

/-- The feed on a token list is live. -/
theorem live_ofTokens (ts : List Token) : (ofTokens ts).Live := by
  have htokens := ofTokens_tokens ts
  obtain ⟨front, e, heq, he⟩ := closed_eq_append ts
  refine ⟨?_, ?_⟩
  · unfold ofTokens
    cases closed ts <;> rfl
  · have hlast : (ofTokens ts).following.getLastD (ofTokens ts).current
        = (closed ts).getLastD (ofTokens ts).current := by
      rw [← htokens, List.getLastD_cons]
    rw [hlast, heq]
    simpa using he

end Feed

end DoWhile
