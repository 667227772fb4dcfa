import DoWhile.Proofs.Token.Joining
import DoWhile.Token.Session

/-!
# Calls on a cursor in any order

A cursor may be driven by any calls in any order, also into the middle of a word, of a gap or of two
equals signs. Every call reads some characters, if any, and does nothing else to the cursor
(`Cursor.run_reads`); so wherever the calls leave it, it stands in its text where its index says
(`Cursor.StandsIn.of_reads`), and a scan from there is the scan of what is left of the text. A
reading that gave the end of the input left a cursor that no call moves any more
(`Cursor.next_of_ended`). All of this is put together in `Cursor.calls_exact`.
-/

set_option autoImplicit false

namespace DoWhile.Cursor

/-! ## Reading on -/

/-- The cursor `c'` is `c` once it has read the characters `taken`. -/
structure Reads (c : Cursor) (taken : List Char) (c' : Cursor) : Prop where
  rest : c.rest = taken ++ c'.rest
  index : c'.index = c.index + taken.length
  position : c'.position = c.position.afterAll taken

/-- A cursor has read nothing on its way to itself. -/
theorem reads_self (c : Cursor) : c.Reads [] c := ⟨rfl, rfl, rfl⟩

/-- Moving past characters reads them. -/
theorem reads_past {c : Cursor} {taken rest : List Char} (h : c.rest = taken ++ rest) :
    c.Reads taken (c.past taken rest) :=
  ⟨h, rfl, rfl⟩

/-- What is read in two parts is read one behind the other. -/
theorem Reads.trans {a b c : Cursor} {taken more : List Char} (hab : a.Reads taken b)
    (hbc : b.Reads more c) : a.Reads (taken ++ more) c := by
  constructor
  · rw [hab.rest, hbc.rest, List.append_assoc]
  · rw [hbc.index, hab.index, List.length_append, Nat.add_assoc]
  · rw [hbc.position, hab.position, Position.afterAll_append]

/-- Where the text has come to its end, there is nothing to be read. -/
theorem Reads.eq_of_end {c c' : Cursor} {taken : List Char} (h : c.Reads taken c')
    (hend : c.rest = []) : c' = c := by
  obtain ⟨hrest, hindex, hposition⟩ := h
  rw [hend, eq_comm, List.append_eq_nil_iff] at hrest
  obtain ⟨rfl, hrest⟩ := hrest
  cases c
  cases c'
  simp_all

/-- Skipping blanks reads them. -/
theorem reads_skipBlanks (c : Cursor) : c.Reads (c.rest.takeWhile isBlank) c.skipBlanks :=
  reads_past List.takeWhile_append_dropWhile.symm

/-! ## One token -/

/-- Reading a token reads some characters. -/
theorem reads_next (c : Cursor) : ∃ taken, c.Reads taken c.next.cursor := by
  have hskip := c.reads_skipBlanks
  cases hrest : c.skipBlanks.rest with
  | nil =>
      rw [next_of_skipBlanks_nil hrest]
      exact ⟨_, hskip⟩
  | cons ch rest =>
      rw [(next_of_skipBlanks_cons hrest).2]
      refine ⟨_, hskip.trans (reads_past ?_)⟩
      rw [hrest, Lexeme.longest_append]

/-- A reading that gives an end token has come to the end of the text. -/
theorem ended_of_next {c : Cursor} (h : c.next.token.isEnd = true) :
    c.next.cursor.rest = [] ∧ c.next.token = Token.endAt c.next.cursor.position := by
  cases hrest : c.skipBlanks.rest with
  | nil =>
      rw [next_of_skipBlanks_nil hrest]
      exact ⟨hrest, rfl⟩
  | cons ch rest =>
      exfalso
      have hblank : isBlank ch = false :=
        not_head_dropWhile isBlank c.rest ch (congrArg List.head? hrest)
      have hproper : c.next.token.isProper = true := by
        rw [(next_of_skipBlanks_cons hrest).1]
        exact Lexeme.isProper_longest ch rest hblank
      rw [Token.isEnd_of_isProper hproper] at h
      exact absurd h (by decide)

/-! ## A whole scan -/

/-- A scan reads up to the end of the text, and its last token is an end token there. -/
theorem readAll_ends (c : Cursor) :
    (∃ taken, c.Reads taken c.readAll.cursor) ∧ c.readAll.cursor.rest = [] ∧
      c.readAll.tokens.getLast? = some (Token.endAt c.readAll.cursor.position) := by
  induction c using readAll.induct with
  | case1 c r hend =>
      obtain ⟨hrest, htoken⟩ := ended_of_next hend
      rw [readAll_of_end hend]
      exact ⟨c.reads_next, hrest, congrArg some htoken⟩
  | case2 c r hend ih =>
      obtain ⟨⟨more, hmore⟩, hrest, hlast⟩ := ih
      obtain ⟨taken, htaken⟩ := c.reads_next
      rw [readAll_of_not_end (by simpa using hend)]
      refine ⟨⟨taken ++ more, htaken.trans hmore⟩, hrest, ?_⟩
      rw [List.getLast?_cons, hlast, Option.getD_some]

/-! ## One call -/

/-- At the end of the text there is no character to read. -/
theorem run_advance_of_nil {c : Cursor} (h : c.rest = []) :
    c.run .advance = (.error .pastEnd, c) := by
  simp only [run, advance?, h]

/-- Reading a character moves past it. -/
theorem run_advance_of_cons {c : Cursor} {ch : Char} {rest : List Char} (h : c.rest = ch :: rest) :
    c.run .advance = (.ok (.character ch), c.past [ch] rest) := by
  simp only [run, advance?, h]

/-- At the end of the text there is no character to look at. -/
theorem run_peek_of_nil {c : Cursor} (h : c.rest = []) : c.run .peek = (.error .pastEnd, c) := by
  simp only [run, peek?, h, List.head?_nil]

/-- Looking at a character does not move. -/
theorem run_peek_of_cons {c : Cursor} {ch : Char} {rest : List Char} (h : c.rest = ch :: rest) :
    c.run .peek = (.ok (.character ch), c) := by
  simp only [run, peek?, h, List.head?_cons]

/-- All that a call does to the cursor is reading on. -/
theorem run_reads (c : Cursor) (call : Call) : ∃ taken, c.Reads taken (c.run call).2 := by
  cases call with
  | next => exact c.reads_next
  | scanAll => exact c.readAll_ends.1
  | skipBlanks => exact ⟨_, c.reads_skipBlanks⟩
  | advance =>
      cases hrest : c.rest with
      | nil =>
          rw [run_advance_of_nil hrest]
          exact ⟨[], c.reads_self⟩
      | cons ch rest =>
          rw [run_advance_of_cons hrest]
          exact ⟨[ch], reads_past hrest⟩
  | peek =>
      cases hrest : c.rest with
      | nil =>
          rw [run_peek_of_nil hrest]
          exact ⟨[], c.reads_self⟩
      | cons ch rest =>
          rw [run_peek_of_cons hrest]
          exact ⟨[], c.reads_self⟩
  | atEnd => exact ⟨[], c.reads_self⟩
  | peekIs expected => exact ⟨[], c.reads_self⟩

/-- Only looking at or reading a character can fail, and it fails exactly at the end of the text. -/
theorem run_error_iff (c : Cursor) (call : Call) (fault : Fault) :
    (c.run call).1 = .error fault ↔
      fault = .pastEnd ∧ (call = .advance ∨ call = .peek) ∧ c.rest = [] := by
  cases call with
  | advance =>
      cases hrest : c.rest with
      | nil => simp [run_advance_of_nil hrest, eq_comm]
      | cons ch rest => simp [run_advance_of_cons hrest]
  | peek =>
      cases hrest : c.rest with
      | nil => simp [run_peek_of_nil hrest, eq_comm]
      | cons ch rest => simp [run_peek_of_cons hrest]
  | next => simp [run]
  | scanAll => simp [run]
  | skipBlanks => simp [run]
  | atEnd => simp [run]
  | peekIs expected => simp [run]

/-! ## Histories of calls -/

/-- The cursor after a list of calls. -/
def afterAll (c : Cursor) (calls : List Call) : Cursor :=
  calls.foldl (fun c call => (c.run call).2) c

/-- One more call adds one answer, with the cursor that it left. -/
theorem runAll_concat (c : Cursor) (calls : List Call) (call : Call) :
    c.runAll (calls ++ [call]) = c.runAll calls ++ [(c.afterAll calls).run call] := by
  induction calls generalizing c with
  | nil => rfl
  | cons first calls ih =>
      rw [List.cons_append, runAll, runAll, ih, List.cons_append]
      rfl

/-- Calls read some characters. -/
theorem reads_afterAll (c : Cursor) (calls : List Call) :
    ∃ taken, c.Reads taken (c.afterAll calls) := by
  induction calls generalizing c with
  | nil => exact ⟨[], c.reads_self⟩
  | cons call calls ih =>
      obtain ⟨taken, htaken⟩ := c.run_reads call
      obtain ⟨more, hmore⟩ := ih (c.run call).2
      exact ⟨taken ++ more, htaken.trans hmore⟩

/-- At the end of the text a reading gives the same end token, whatever calls come before it. -/
theorem next_of_ended {c : Cursor} (hend : c.rest = []) (calls : List Call) :
    ((c.afterAll calls).run .next).1 = .ok (.token (Token.endAt c.position)) := by
  obtain ⟨taken, htaken⟩ := c.reads_afterAll calls
  have hskip : c.skipBlanks = c := c.reads_skipBlanks.eq_of_end hend
  have hnext : c.next = ⟨Token.endAt c.position, c, []⟩ := by
    rw [next_of_skipBlanks_nil (by rw [hskip, hend]), hskip]
  rw [htaken.eq_of_end hend, run, hnext]

/-- Some tokens one by one, and then a scan, give the tokens of one scan in two parts. -/
theorem runAll_next_scanAll (c : Cursor) {k : Nat} (hk : k < c.scanAll.tokens.length) :
    (c.runAll (List.replicate k .next ++ [.scanAll])).map (·.1) =
      (c.scanAll.tokens.take k).map (fun t => .ok (.token t)) ++
        [.ok (.tokens (c.scanAll.tokens.drop k))] := by
  have htokens : ∀ c : Cursor, c.scanAll.tokens = c.readAll.tokens := fun _ => rfl
  induction k generalizing c with
  | zero => rfl
  | succ k ih =>
      rw [htokens] at hk ⊢
      by_cases hend : c.next.token.isEnd = true
      · rw [readAll_of_end hend, List.length_singleton] at hk
        omega
      · have hgo := readAll_of_not_end (Bool.eq_false_iff.mpr hend)
        rw [hgo] at hk ⊢
        rw [List.length_cons, Nat.add_lt_add_iff_right] at hk
        rw [List.replicate_succ, List.cons_append, runAll, List.map_cons, List.take_succ_cons,
          List.map_cons, List.drop_succ_cons, List.cons_append]
        congr 1
        exact ih c.next.cursor hk

/-! ## Standing in a text -/

/-- The cursor stands in `source` where its index says: what is left is the text from there on, and
the place is the one right behind the text up to there. -/
structure StandsIn (c : Cursor) (source : String) : Prop where
  index_le : c.index ≤ source.length
  rest : c.rest = source.toList.drop c.index
  position : c.position = Position.behind (source.toList.take c.index)

/-- A cursor begins at the front of its source. -/
theorem standsIn_start (source : String) : (start source).StandsIn source :=
  ⟨Nat.zero_le _, rfl, rfl⟩

/-- A cursor that reads on still stands in its text. -/
theorem StandsIn.of_reads {c c' : Cursor} {source : String} {taken : List Char}
    (hc : c.StandsIn source) (h : c.Reads taken c') : c'.StandsIn source := by
  have hdrop : source.toList.drop c.index = taken ++ c'.rest := by rw [← hc.rest, h.rest]
  constructor
  · have hlen := congrArg List.length hdrop
    have hle := hc.index_le
    rw [List.length_drop, String.length_toList, List.length_append] at hlen
    rw [h.index]
    omega
  · rw [h.index, ← List.drop_drop, hdrop, List.drop_left]
  · rw [h.position, hc.position, Position.afterAll_behind, h.index, List.take_add, hdrop,
      List.take_left]

/-- Nothing is left exactly if the index is the length of the source. -/
theorem StandsIn.rest_eq_nil_iff {c : Cursor} {source : String} (hc : c.StandsIn source) :
    c.rest = [] ↔ c.index = source.length := by
  have hle := hc.index_le
  rw [hc.rest, List.drop_eq_nil_iff, String.length_toList]
  omega

/-! ## What holds of every call -/

/-- The last token that an answer holds. -/
def Answer.lastToken? : Answer → Option Token
  | token t => some t
  | tokens ts => ts.getLast?
  | _ => none

/-- What holds of a call on a cursor in `source`: the cursor still stands in it and has not gone
back; the call fails only when it looks at or reads a character at the end of the text, and then the
cursor stays as it is; and once the end of the input was given, every reading gives the same token,
whatever is called in between. -/
structure ExactCall (source : String) (c : Cursor) (call : Call) : Prop where
  stands : (c.run call).2.StandsIn source
  forward : c.index ≤ (c.run call).2.index
  fails : ∀ fault, (c.run call).1 = .error fault ↔
    fault = .pastEnd ∧ (call = .advance ∨ call = .peek) ∧ c.index = source.length
  unmoved : ∀ fault, (c.run call).1 = .error fault → (c.run call).2 = c
  ended : ∀ a t, (c.run call).1 = .ok a → a.lastToken? = some t → t.isEnd = true →
    ∀ later, (((c.run call).2.afterAll later).run .next).1 = .ok (.token t)

/-- No call but the reading of one token and of all of them answers with tokens. -/
theorem lastToken?_run (c : Cursor) (call : Call) : call = .next ∨ call = .scanAll ∨
    ∀ a, (c.run call).1 = .ok a → a.lastToken? = none := by
  cases call with
  | next => exact .inl rfl
  | scanAll => exact .inr (.inl rfl)
  | skipBlanks => exact .inr (.inr fun a ha => by cases ha; rfl)
  | advance =>
      refine .inr (.inr fun a ha => ?_)
      cases hrest : c.rest with
      | nil => simp [run_advance_of_nil hrest] at ha
      | cons ch rest =>
          rw [run_advance_of_cons hrest] at ha
          cases ha
          rfl
  | peek =>
      refine .inr (.inr fun a ha => ?_)
      cases hrest : c.rest with
      | nil => simp [run_peek_of_nil hrest] at ha
      | cons ch rest =>
          rw [run_peek_of_cons hrest] at ha
          cases ha
          rfl
  | atEnd => exact .inr (.inr fun a ha => by cases ha; rfl)
  | peekIs expected => exact .inr (.inr fun a ha => by cases ha; rfl)

/-- An answer that ends in an end token leaves the cursor at the end of the text, at the place of
that token. -/
theorem ended_of_run {c : Cursor} {call : Call} {a : Answer} {t : Token}
    (ha : (c.run call).1 = .ok a) (hlast : a.lastToken? = some t) (hend : t.isEnd = true) :
    (c.run call).2.rest = [] ∧ t = Token.endAt (c.run call).2.position := by
  rcases c.lastToken?_run call with rfl | rfl | hnone
  · obtain rfl : Answer.token c.next.token = a := Except.ok.inj ha
    obtain rfl : c.next.token = t := Option.some.inj hlast
    exact ended_of_next hend
  · obtain rfl : Answer.tokens c.readAll.tokens = a := Except.ok.inj ha
    obtain ⟨-, hrest, hclosing⟩ := c.readAll_ends
    exact ⟨hrest, Option.some.inj (hlast.symm.trans hclosing)⟩
  · rw [hnone a ha] at hlast
    exact absurd hlast (by simp)

/-- Every call on a cursor that stands in its source is exact. -/
theorem StandsIn.exactCall {c : Cursor} {source : String} (hc : c.StandsIn source) (call : Call) :
    c.ExactCall source call := by
  obtain ⟨taken, htaken⟩ := c.run_reads call
  constructor
  · exact hc.of_reads htaken
  · rw [htaken.index]
    exact Nat.le_add_right _ _
  · intro fault
    rw [run_error_iff, hc.rest_eq_nil_iff]
  · intro fault hfault
    exact htaken.eq_of_end ((run_error_iff c call fault).mp hfault).2.2
  · intro a t ha hlast hend later
    obtain ⟨hrest, ht⟩ := ended_of_run ha hlast hend
    rw [ht]
    exact next_of_ended hrest later

/-- **A cursor is exact wherever calls leave it.** After any calls it stands in its text where its
index says, and every further call is exact (`ExactCall`). A scan from there gives the tokens of the
rest of the text, carried to the place of the cursor. In particular, a scan behind some tokens read
one by one goes on where these end. -/
theorem calls_exact (source : String) (calls : List Call) (c : Cursor)
    (hc : c = (start source).afterAll calls) :
    c.StandsIn source ∧
      (∀ call, (start source).runAll (calls ++ [call]) =
          (start source).runAll calls ++ [c.run call] ∧
        c.ExactCall source call) ∧
      (c.run .scanAll).1 = .ok (.tokens ((scan (String.ofList (source.toList.drop c.index))).map
        (·.carriedTo c.position))) ∧
      ∀ k < (scan source).length,
        ((start source).runAll (List.replicate k .next ++ [.scanAll])).map (·.1) =
          ((scan source).take k).map (fun t => .ok (.token t)) ++
            [.ok (.tokens ((scan source).drop k))] := by
  subst hc
  obtain ⟨taken, htaken⟩ := (start source).reads_afterAll calls
  have hstands := (standsIn_start source).of_reads htaken
  refine ⟨hstands, ?_, ?_, ?_⟩
  · intro call
    exact ⟨runAll_concat _ calls call, hstands.exactCall call⟩
  · rw [← hstands.rest, ← tokens_scanAll]
    rfl
  · intro k hk
    exact runAll_next_scanAll _ hk

/-- A text with a line end of two characters, and two equals signs. -/
def brokenText : String := "do=\r\n==1"

/-- Calls that leave the cursor between the two equals signs. -/
def brokenCalls : List Call := [.next, .advance, .skipBlanks, .advance]

/-- From between two equals signs, a scan reads the second one as a symbol of its own. -/
theorem calls_exact_brokenText :
    ((start brokenText).afterAll brokenCalls).StandsIn brokenText ∧
      (((start brokenText).afterAll brokenCalls).run .scanAll).1 =
        .ok (.tokens [⟨⟨.symbol, "="⟩, ⟨2, 2⟩⟩, ⟨⟨.number, "1"⟩, ⟨2, 3⟩⟩, Token.endAt ⟨2, 4⟩]) ∧
      ((start brokenText).runAll (List.replicate 2 .next ++ [.scanAll])).map (·.1) =
        [.ok (.token ⟨⟨.reserved, "do"⟩, ⟨1, 1⟩⟩), .ok (.token ⟨⟨.symbol, "="⟩, ⟨1, 3⟩⟩),
          .ok (.tokens [⟨⟨.symbol, "=="⟩, ⟨2, 1⟩⟩, ⟨⟨.number, "1"⟩, ⟨2, 3⟩⟩,
            Token.endAt ⟨2, 4⟩])] := by
  obtain ⟨hstands, -, hresumes, hcut⟩ := calls_exact brokenText brokenCalls _ rfl
  refine ⟨hstands, ?_, ?_⟩
  · rw [hresumes]
    have htokens : (scan (String.ofList (brokenText.toList.drop
        ((start brokenText).afterAll brokenCalls).index))).map
          (·.carriedTo ((start brokenText).afterAll brokenCalls).position) =
        [⟨⟨.symbol, "="⟩, ⟨2, 2⟩⟩, ⟨⟨.number, "1"⟩, ⟨2, 3⟩⟩, Token.endAt ⟨2, 4⟩] := by
      decide +kernel
    rw [htokens]
  · have hscan : scan brokenText =
        [⟨⟨.reserved, "do"⟩, ⟨1, 1⟩⟩, ⟨⟨.symbol, "="⟩, ⟨1, 3⟩⟩, ⟨⟨.symbol, "=="⟩, ⟨2, 1⟩⟩,
          ⟨⟨.number, "1"⟩, ⟨2, 3⟩⟩, Token.endAt ⟨2, 4⟩] := by
      decide +kernel
    rw [hcut 2 (by rw [hscan]; decide), hscan]
    rfl

end DoWhile.Cursor
