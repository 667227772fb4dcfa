import DoWhile.Proofs.Parse.Walk

/-!
# Every loop ends

The parser has three loops: over the tokens in front of a word it looks for, over the items of a
loop body, and over statements. `Loops` runs a loop for as long as it likes; that it comes to an end
is a fact to be proved. On a live feed each of the three does (`loops_skipTo`, `BodyRun.loops`,
`statements_spec`), and ends where the parser says it does. The reason is the same for all: a round
begins at a token that is no end token, so there is a further token to move onto
(`Feed.Live.advance_lt`).
-/

set_option autoImplicit false

namespace DoWhile

namespace Feed

/-- The loop that takes rounds until it may stop, entered at `f`, ends at `g`. -/
inductive Loops (stops : Feed → Bool) (round : Feed → Feed) : Feed → Feed → Prop
  | done {f : Feed} (hstops : stops f = true) : Loops stops round f f
  | next {f g : Feed} (hstops : stops f = false) (hrest : Loops stops round (round f) g) :
      Loops stops round f g

/-- A free feed that moves on has one token less behind it. -/
theorem following_advance {f : Feed} (hf : f.held = false) :
    f.advance.following = f.following.tail := by
  obtain ⟨current, following, held⟩ := f
  obtain rfl : held = false := hf
  cases following <;> rfl

/-- A live feed that walks on from anything but an end token, and then moves one token further, has
fewer tokens behind it than before. -/
theorem Live.advance_lt {f g : Feed} {ds : List Diagnostic} (hf : f.Live)
    (hcurrent : f.current.isEnd = false) (h : f.Walk ds g) :
    g.advance.following.length < f.following.length := by
  obtain ⟨us, hmoves, -⟩ := h.exists_moves
  have hlen := congrArg List.length hmoves.following
  have hpos := List.length_pos_iff.mpr (hf.following_ne_nil hcurrent)
  rw [List.length_append] at hlen
  rw [following_advance (h.live hf).free, List.length_tail]
  omega

/-! ## Skipping tokens -/

/-- May a search for the text `w` stop at the feed? -/
def stopsAt (w : String) (f : Feed) : Bool := f.atEnd || f.current.literal == w

/-- The search through a list of tokens is a loop that stops where it ends. -/
theorem loops_seek (w : String) (t : Token) (ts : List Token)
    (hf : (⟨t, ts, false⟩ : Feed).Live) :
    Loops (stopsAt w) advance ⟨t, ts, false⟩ (seek w t ts) := by
  induction ts generalizing t with
  | nil =>
      have hend : t.isEnd = true := hf.ends
      exact .done (by simp [stopsAt, atEnd, hend])
  | cons u us ih =>
      rw [seek]
      by_cases hstop : (t.isEnd || t.literal == w) = true
      · rw [if_pos hstop]
        exact .done hstop
      · rw [if_neg hstop]
        exact .next (by simpa [stopsAt, atEnd] using hstop) (ih u hf.advance)

/-- Skipping to a text is moving on token by token until the text or an end token is reached. -/
theorem loops_skipTo (w : String) {f : Feed} (hf : f.Live) :
    Loops (stopsAt w) advance f (f.skipTo w) := by
  obtain ⟨current, following, held⟩ := f
  obtain rfl : held = false := hf.free
  exact loops_seek w current following hf

/-- A search that may stop at once stays where it is. -/
theorem skipTo_of_stopsAt {w : String} {f : Feed} (hf : f.held = false)
    (hstops : stopsAt w f = true) : f.skipTo w = f := by
  obtain ⟨current, following, held⟩ := f
  obtain rfl : held = false := hf
  cases following with
  | nil => rfl
  | cons u us => exact if_pos hstops

/-- A search that may not stop goes on from the next token. -/
theorem skipTo_advance {w : String} {f : Feed} (hf : f.Live) (hstops : stopsAt w f = false) :
    f.skipTo w = f.advance.skipTo w := by
  obtain ⟨current, following, held⟩ := f
  obtain rfl : held = false := hf.free
  cases following with
  | nil =>
      have hend : current.isEnd = true := hf.ends
      simp [stopsAt, atEnd, hend] at hstops
  | cons u us =>
      have hgoes : ¬ (current.isEnd || current.literal == w) = true := by
        simpa [stopsAt, atEnd] using hstops
      exact if_neg hgoes

/-- A search passes the tokens in front of the first feed where it may stop, and stops there. -/
theorem skipTo_of_passes {w : String} {f g : Feed} {ts : List Token} (hf : f.Live)
    (h : f.Passes ts g) (hts : ∀ t ∈ ts, t.isEnd = false ∧ t.literal ≠ w)
    (hg : stopsAt w g = true) : f.skipTo w = g := by
  induction ts generalizing f with
  | nil =>
      obtain rfl := h.eq_of_nil
      exact skipTo_of_stopsAt hf.free hg
  | cons t ts ih =>
      obtain ⟨⟨hend, hne⟩, hrest⟩ := List.forall_mem_cons.mp hts
      obtain ⟨rfl, hpasses⟩ := h.of_cons hf.free
      rw [skipTo_advance hf (by simp [stopsAt, atEnd, hend, hne])]
      exact ih hf.advance hpasses hrest

/-- A loop may stop where it ends. -/
theorem Loops.stops {stops : Feed → Bool} {round : Feed → Feed} {f g : Feed}
    (h : Loops stops round f g) : stops g = true := by
  induction h with
  | done hstops => exact hstops
  | next _ _ ih => exact ih

end Feed

namespace Parse

variable {f g : Feed}

/-! ## The items of a loop body -/

/-- May the loop over the items of a body stop at the feed: in front of it, or at an item that broke
off? -/
def stopsBody (f : Feed) : Bool := endsBody f || breaksOff (bodyItem f)

/-- Where a loop body goes on, the current token is not the end of the input. -/
theorem isEnd_of_endsBody (hends : endsBody f = false) : f.current.isEnd = false := by
  simp only [endsBody, Bool.or_eq_false_iff] at hends
  exact hends.1

/-- A loop body is read item by item until it ends or an item breaks off. -/
theorem BodyRun.loops {st : Stretch} (h : BodyRun f st) (hf : f.Live) :
    ∃ g, Feed.Loops stopsBody (fun h => (bodyItem h).feed.advance) f g ∧
      st.feed = if endsBody g then g else (bodyItem g).feed := by
  induction h with
  | @done f hends => exact ⟨f, .done (by simp [stopsBody, hends]), by simp [hends]⟩
  | @broken f hends hbreaks => exact ⟨f, .done (by simp [stopsBody, hbreaks]), by simp [hends]⟩
  | @item f rest hends hbreaks _ _ ih =>
      obtain ⟨g, hloops, hfeed⟩ := ih ((walks_bodyItem f).live hf).advance
      exact ⟨g, .next (by simp [stopsBody, hends, hbreaks]) hloops, hfeed⟩
  | @stuck f hends _ hlt =>
      exact absurd (hf.advance_lt (isEnd_of_endsBody hends) (walks_bodyItem f)) hlt

/-! ## Statements -/

/-- With a round for each token behind the feed, statements are read one by one until an end token
is reached. The rounds are not used up, so reading them is a walk. -/
theorem statements_spec (rounds : Nat) (hf : f.Live) (hrounds : f.following.length ≤ rounds) :
    Feed.Loops Feed.atEnd (fun g => (statement g).feed.advance) f (statements rounds f).feed ∧
      f.Trail (statements rounds f).notes (statements rounds f).feed := by
  induction rounds generalizing f with
  | zero =>
      have hend : f.atEnd = true := by
        by_contra hend
        have hne := hf.following_ne_nil (by simpa [Feed.atEnd] using hend)
        exact hne (List.length_eq_zero_iff.mp (by omega))
      rw [statements_of_atEnd hend]
      exact ⟨.done hend, .stay f⟩
  | succ rounds ih =>
      by_cases hend : f.atEnd = true
      · rw [statements_of_atEnd hend]
        exact ⟨.done hend, .stay f⟩
      have hend' : f.atEnd = false := by simpa using hend
      have hlt := hf.advance_lt hend' (walks_statement f)
      obtain ⟨hloops, htrail⟩ := ih ((walks_statement f).live hf).advance (by omega)
      rw [statements_succ hend']
      exact ⟨.next hend' hloops, Feed.Trail.trans (trails_statement f) (.step htrail)⟩

/-- With rounds for all tokens, statements are read up to an end token. -/
theorem atEnd_statements {rounds : Nat} (hf : f.Live) (hrounds : f.following.length ≤ rounds) :
    (statements rounds f).feed.atEnd = true := (statements_spec rounds hf hrounds).1.stops

/-! ## All loops -/

/-- Every loop that reading may enter at the feed comes to an end, and ends where the parser says:
searches for a text, the items of a loop body, and statements in the given number of rounds. -/
structure LoopsEnd (rounds : Nat) (f : Feed) : Prop where
  search : ∀ w, Feed.Loops (Feed.stopsAt w) Feed.advance f (f.skipTo w)
  body : ∃ g, Feed.Loops stopsBody (fun h => (bodyItem h).feed.advance) f g ∧
    (body f).feed = if endsBody g then g else (bodyItem g).feed
  statements : Feed.Loops Feed.atEnd (fun g => (statement g).feed.advance) f
    (statements rounds f).feed

/-- On a list that ends in an end token, with rounds for all its tokens, every loop comes to an
end. -/
theorem loopsEnd_of_live {rounds : Nat} (hf : f.Live) (hrounds : f.following.length ≤ rounds) :
    LoopsEnd rounds f where
  search w := Feed.loops_skipTo w hf
  body := (bodyRun_body f).loops hf
  statements := (statements_spec rounds hf hrounds).1

end Parse

end DoWhile
