import DoWhile.Parse.Session
import DoWhile.Proofs.Parse.Progress

/-!
# Calls in any order

The parses of the grammar may be called one by one, in any order and wherever the call before left
off. A session is sound if its feed is a live window on its token list (`Session.Sound`); a new
session is sound, and every reading call keeps it so, because a reading call is a walk of the feed
(`Session.run_walk`). What one call may do to the index and to the diagnostics is read off that
walk, and so it holds after every history of calls (`reading_call_safe`).
-/

set_option autoImplicit false

namespace DoWhile

namespace Complaint

/-- The message for an unexpected token begins with a `U`. -/
theorem head?_message_unexpected (found : Lexeme) :
    (unexpected found).message.toList.head? = some 'U' := by
  have hmessage : (unexpected found).message = "Unexpected token " ++ found.describe := rfl
  rw [hmessage, String.toList_append]
  rfl

/-- The message for a missing token begins with an `E`. -/
theorem head?_message_expected (wanted : Expectation) (found : Lexeme) :
    (expected wanted found).message.toList.head? = some 'E' := by
  have hmessage : (expected wanted found).message =
      "Expected " ++ wanted.text ++ ", got " ++ found.describe := rfl
  rw [hmessage, String.toList_append, String.toList_append, String.toList_append,
    List.append_assoc, List.append_assoc]
  rfl

/-- A complaint that reading raises never says that there were too many rounds. -/
theorem message_ne_of_ofReading {c : Complaint} (hc : c.ofReading = true) :
    c.message ≠ "Too many iterations, possible infinite loop; parsing stopped" := by
  intro heq
  have hhead : c.message.toList.head? = some 'T' := by
    rw [heq]
    rfl
  cases c with
  | unexpected found =>
      rw [head?_message_unexpected] at hhead
      exact absurd hhead (by decide)
  | expected wanted found =>
      rw [head?_message_expected] at hhead
      exact absurd hhead (by decide)
  | tooManyRounds => exact absurd hc (by decide)
  | alreadyDeclared name => exact absurd hc (by simp [ofReading])
  | usedBeforeDeclared name => exact absurd hc (by simp [ofReading])
  | remark text => exact absurd hc (by simp [ofReading])

end Complaint

namespace Session

/-! ## Sound sessions -/

/-- A session whose feed is a live window on its tokens. -/
structure Sound (s : Session) : Prop where
  live : s.feed.Live
  window : ∃ front, s.tokens = front ++ s.feed.current :: s.feed.following

/-- The session stands at its index: the token there is the one under examination, and those behind
it are the ones that follow. -/
structure InPlace (s : Session) : Prop where
  lt : s.index < s.tokens.length
  drop : s.tokens.drop s.index = s.feed.current :: s.feed.following

/-- The index counts the tokens in front of the current one. -/
theorem index_eq {s : Session} {front : List Token}
    (h : s.tokens = front ++ s.feed.current :: s.feed.following) : s.index = front.length := by
  rw [index, h, List.length_append, List.length_cons]
  omega

/-- A sound session stands at its index. -/
theorem Sound.inPlace {s : Session} (hs : s.Sound) : s.InPlace := by
  obtain ⟨front, hfront⟩ := hs.window
  have hindex := index_eq hfront
  constructor
  · rw [hindex, hfront, List.length_append, List.length_cons]
    omega
  · rw [hindex, hfront, List.drop_left]

/-- A session begins sound. -/
theorem sound_start (tokens : List Token) : (start tokens).Sound :=
  ⟨Feed.live_ofTokens tokens, [], (Feed.ofTokens_tokens tokens).symm⟩

/-! ## One call -/

/-- Calls that read: all but raising a remark by hand and holding the feed. -/
def Call.reads : Call → Bool
  | complain _ => false
  | hold => false
  | _ => true

/-- The session `t` is `s` after a walk of its feed, and `new` are the diagnostics raised on it. -/
structure Walked (s : Session) (new : List Diagnostic) (t : Session) : Prop where
  tokens : t.tokens = s.tokens
  errors : t.errors = s.errors ++ new
  walk : s.feed.Walk new t.feed

/-- Without a call the feed walks nowhere. -/
theorem walked_self (s : Session) : s.Walked [] s := ⟨rfl, by rw [List.append_nil], .stay s.feed⟩

/-- A call that reads walks the feed of the session. -/
theorem walked_read {α : Type} (s : Session) {p : Parse α} (answer : Option α → Answer)
    (hp : p.Walks) : s.Walked (p s.feed).notes.errors (s.read p answer).2 :=
  ⟨rfl, rfl, hp s.feed⟩

/-- No more tokens follow than the rounds that are allowed. -/
theorem Sound.following_le {s : Session} (hs : s.Sound) :
    s.feed.following.length ≤ Parse.allowance s.tokens.length := by
  obtain ⟨front, hfront⟩ := hs.window
  rw [Parse.allowance, hfront, List.length_append, List.length_cons]
  omega

/-- A reading call is a walk of the feed. -/
theorem run_walk {s : Session} (hs : s.Sound) {call : Call} (hcall : call.reads = true) :
    ∃ new, s.Walked new (s.run call).2 := by
  cases call with
  | current => exact ⟨_, s.walked_self⟩
  | peek => exact ⟨_, s.walked_self⟩
  | atEnd => exact ⟨_, s.walked_self⟩
  | peekIs literal => exact ⟨_, s.walked_self⟩
  | tokenAt i => exact ⟨_, s.walked_self⟩
  | advance => exact ⟨_, s.walked_read _ Parse.walks_advance⟩
  | declaration => exact ⟨_, s.walked_read _ Parse.walks_declaration⟩
  | assignment => exact ⟨_, s.walked_read _ Parse.walks_assignment⟩
  | loop => exact ⟨_, s.walked_read _ Parse.walks_loop⟩
  | condition => exact ⟨_, s.walked_read _ Parse.walks_condition⟩
  | operand => exact ⟨_, s.walked_read _ Parse.walks_operand⟩
  | expression => exact ⟨_, s.walked_read _ Parse.walks_expression⟩
  | comparison => exact ⟨_, s.walked_read _ Parse.walks_comparison⟩
  | expect literal wanted => exact ⟨_, s.walked_read _ (Parse.walks_expect literal wanted)⟩
  | expectKind kind wanted => exact ⟨_, s.walked_read _ (Parse.walks_expectKind kind wanted)⟩
  | program => exact ⟨_, rfl, rfl, (Parse.statements_spec _ hs.live hs.following_le).2.walk⟩
  | complain text => exact absurd hcall (by simp [Call.reads])
  | hold => exact absurd hcall (by simp [Call.reads])

/-- Where a walk ends, the feed is still a window on the tokens, and the tokens that it passed stand
between the two indices. -/
theorem Walked.window {s t : Session} {new : List Diagnostic} (h : s.Walked new t)
    {front : List Token} (hfront : s.tokens = front ++ s.feed.current :: s.feed.following) :
    ∃ passed, t.tokens = front ++ passed ++ t.feed.current :: t.feed.following ∧
      ∀ d ∈ new, d.complaint.ofReading = true ∧
        ∃ u ∈ passed ++ [t.feed.current], d.position = u.position := by
  obtain ⟨us, hmoves, hplaces⟩ := h.walk.exists_moves
  obtain ⟨passed, hpassed, hpasses⟩ := hmoves.exists_passes
  refine ⟨passed, ?_, ?_⟩
  · rw [h.tokens, hfront, hpasses.tokens, List.append_assoc]
  · rw [← hpassed]
    exact hplaces

/-- A session stays sound on a walk. -/
theorem Walked.sound {s t : Session} {new : List Diagnostic} (h : s.Walked new t)
    (hs : s.Sound) : t.Sound := by
  obtain ⟨front, hfront⟩ := hs.window
  obtain ⟨passed, htokens, -⟩ := h.window hfront
  exact ⟨h.walk.live hs.live, front ++ passed, htokens⟩

/-- What a reading call does: it goes forward, keeps the diagnostics, and raises new ones at tokens
between its two indices, none of them for want of rounds. -/
structure Advances (s t : Session) : Prop where
  tokens : t.tokens = s.tokens
  index : s.index ≤ t.index
  errors : ∃ new, t.errors = s.errors ++ new ∧ ∀ d ∈ new,
    d.message ≠ "Too many iterations, possible infinite loop; parsing stopped" ∧
      ∃ i u, s.index ≤ i ∧ i ≤ t.index ∧ s.tokens[i]? = some u ∧ d.position = u.position

/-- On a walk of its feed a session advances. -/
theorem Walked.advances {s t : Session} {new : List Diagnostic} (h : s.Walked new t)
    (hs : s.Sound) : s.Advances t := by
  obtain ⟨front, hfront⟩ := hs.window
  obtain ⟨passed, htokens, hplaces⟩ := h.window hfront
  have hbefore := index_eq hfront
  have hafter := index_eq htokens
  rw [List.length_append] at hafter
  refine ⟨h.tokens, by omega, new, h.errors, ?_⟩
  intro d hd
  obtain ⟨hcomplaint, u, hu, hposition⟩ := hplaces d hd
  obtain ⟨j, hj, hat⟩ := List.mem_iff_getElem.mp hu
  have hshow : s.tokens = front ++ ((passed ++ [t.feed.current]) ++ t.feed.following) := by
    rw [← h.tokens, htokens, List.append_assoc, List.append_assoc, List.singleton_append]
  have hlen : j ≤ passed.length := by
    rw [List.length_append, List.length_singleton] at hj
    omega
  refine ⟨Complaint.message_ne_of_ofReading hcomplaint, front.length + j, u, by omega, by omega,
    ?_, hposition⟩
  rw [hshow, List.getElem?_append_right (by omega), Nat.add_sub_cancel_left,
    List.getElem?_append_left hj, List.getElem?_eq_getElem hj, hat]

/-! ## Histories of calls -/

/-- The session after a list of calls. -/
def afterAll (s : Session) (calls : List Call) : Session :=
  calls.foldl (fun s call => (s.run call).2) s

/-- One more call adds one answer, with the session that it left. -/
theorem runAll_concat (s : Session) (calls : List Call) (call : Call) :
    s.runAll (calls ++ [call]) = s.runAll calls ++ [(s.afterAll calls).run call] := by
  induction calls generalizing s with
  | nil => rfl
  | cons first calls ih =>
      rw [List.cons_append, runAll, runAll, ih, List.cons_append]
      rfl

/-- A session stays sound, and keeps its tokens, through any calls that read. -/
theorem Sound.afterAll {s : Session} (hs : s.Sound) {calls : List Call}
    (hcalls : ∀ c ∈ calls, c.reads = true) :
    (s.afterAll calls).Sound ∧ (s.afterAll calls).tokens = s.tokens := by
  induction calls generalizing s with
  | nil => exact ⟨hs, rfl⟩
  | cons call calls ih =>
      rw [List.forall_mem_cons] at hcalls
      obtain ⟨new, hwalked⟩ := run_walk hs hcalls.1
      obtain ⟨hsound, htokens⟩ := ih (hwalked.sound hs) hcalls.2
      exact ⟨hsound, htokens.trans hwalked.tokens⟩

/-- What holds of a call on a session: the session stands at its index before it and after it, the
call advances it, every loop that it may enter comes to an end, and statements are read up to an end
token. -/
structure SafeCall (s : Session) (call : Call) : Prop where
  before : s.InPlace
  after : (s.run call).2.InPlace
  advances : s.Advances (s.run call).2
  returns : ∀ us g, s.feed.Moves us g → Parse.LoopsEnd (Parse.allowance s.tokens.length) g
  finishes : call = .program → (s.run call).2.feed.atEnd = true

/-- Every call that reads is safe on a sound session. -/
theorem Sound.safeCall {s : Session} (hs : s.Sound) {call : Call} (hcall : call.reads = true) :
    s.SafeCall call := by
  obtain ⟨new, hwalked⟩ := run_walk hs hcall
  refine ⟨hs.inPlace, (hwalked.sound hs).inPlace, hwalked.advances hs, ?_, ?_⟩
  · intro us g hmoves
    have hlen := congrArg List.length hmoves.following
    have hrounds := hs.following_le
    rw [List.length_append] at hlen
    exact Parse.loopsEnd_of_live (hs.live.of_moves hmoves) (by omega)
  · rintro rfl
    exact Parse.atEnd_statements hs.live hs.following_le

/-- **Reading is safe and comes to an end.** Take any tokens, any history of reading calls, and one
more reading call. It has its answer; the index stays inside the closed token list and never goes
back; the diagnostics only grow, each new one at a token between the two indices; no loop that the
call may enter runs on for ever, and none is ever cut short by the limit on its rounds. -/
theorem reading_call_safe (tokens : List Token) (calls : List Call) (call : Call)
    (hcalls : ∀ c ∈ calls, c.reads = true) (hcall : call.reads = true) :
    (start tokens).runAll (calls ++ [call]) =
        (start tokens).runAll calls ++ [((start tokens).afterAll calls).run call] ∧
      ((start tokens).afterAll calls).tokens = closed tokens ∧
      ((start tokens).afterAll calls).SafeCall call := by
  obtain ⟨hsound, htokens⟩ := (sound_start tokens).afterAll hcalls
  exact ⟨runAll_concat _ calls call, htokens, hsound.safeCall hcall⟩

/-- Hand-made tokens: a loop whose brace is of the wrong kind, and an end token in the middle. -/
def strayTokens : List Token :=
  [⟨⟨.reserved, "do"⟩, ⟨1, 1⟩⟩, ⟨⟨.error, "\x7d"⟩, ⟨1, 4⟩⟩, ⟨⟨.endOfInput, "while"⟩, ⟨1, 5⟩⟩,
    ⟨⟨.symbol, ")"⟩, ⟨1, 6⟩⟩]

/-- Calls on them that read past that end token. -/
def strayCalls : List Call :=
  [.loop, .expect "(" .openingParenthesis, .advance, .condition, .program]

/-- Reading a comparison behind a misplaced end token is safe. -/
theorem reading_call_safe_strayTokens :
    (∀ c ∈ strayCalls, c.reads = true) ∧ Call.comparison.reads = true ∧
      ((start strayTokens).afterAll strayCalls).tokens = closed strayTokens ∧
      ((start strayTokens).afterAll strayCalls).SafeCall .comparison := by
  have hcalls : ∀ c ∈ strayCalls, c.reads = true := by decide
  obtain ⟨-, htokens, hsafe⟩ := reading_call_safe strayTokens strayCalls .comparison hcalls rfl
  exact ⟨hcalls, rfl, htokens, hsafe⟩

end Session

end DoWhile
