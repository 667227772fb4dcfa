import DoWhile.Proofs.Parse.EndToken
import DoWhile.Proofs.Parse.Extension
import Mathlib.Data.Fintype.EquivFin

/-!
# Tokens behind the end

The parser stops at the first end token that it meets in front of a statement. But where a statement
is given up on an end token, the parser moves one token further, as it does behind every statement,
and goes on reading if anything stands there (`parse_reads_behind_end`). So what stands behind the
last token of a list matters exactly if a statement is given up on that token (`Parse.Uncut`,
`parse_behind_end_iff`).
-/

set_option autoImplicit false

namespace DoWhile

namespace Parse

variable {f : Feed}

/-! ## Rows of statements -/

/-- Each statement of the row ends in front of the last token: none is given up on it. -/
inductive Uncut : Feed → Prop
  | done {f : Feed} (hend : f.atEnd = true) : Uncut f
  | next {f : Feed} (hend : f.atEnd = false) (hleft : (statement f).feed.following ≠ [])
      (hrest : Uncut (statement f).feed.advance) : Uncut f

/-- A row that is not cut is read the same whatever stands behind. -/
theorem Uncut.row_extend {ts : List Token} (h : Uncut f) (hf : f.Live)
    (hlong : (f.extend ts).Live) : row (f.extend ts) = (row f).extend ts := by
  induction h with
  | @done f hend =>
      rw [row_of_atEnd hend, row_of_atEnd (f := f.extend ts) hend]
      rfl
  | @next f hend hleft _ ih =>
      have hstatement := (bounded_statement hf hend).extend_eq hleft ts
      have hnext : (statement (f.extend ts)).feed.advance =
          (statement f).feed.advance.extend ts := by
        rw [hstatement]
        exact Feed.advance_extend hleft ts
      have hlong' := ((walks_statement (f.extend ts)).live hlong).advance
      rw [hnext] at hlong'
      have hrest := ih ((walks_statement f).live hf).advance hlong'
      rw [row_of_not_atEnd hf hend, row_of_not_atEnd (f := f.extend ts) hlong hend, hnext, hrest,
        hstatement]
      rfl

/-- A row that begins with a strange token notices it. -/
theorem row_notices_strange (place : Position) :
    Noticed (row (Feed.strange place)).notes.errors place := by
  have hstatement : Noticed (statement (Feed.strange place)).notes.errors place :=
    ⟨_, List.mem_cons_self, rfl⟩
  rw [row_of_not_atEnd (Feed.live_strange place) rfl, Notes.errors_append]
  exact hstatement.append_left _

/-- A row that is cut notices a strange token behind it. -/
theorem row_notices (hf : f.Live) (hcut : ¬ Uncut f) (place : Position) :
    Noticed (row (f.extend (Feed.strangeTail place))).notes.errors place := by
  -- each round leaves fewer tokens behind the feed
  induction hn : f.following.length using Nat.strongRecOn generalizing f with
  | ind n ih =>
    have hend : f.atEnd = false := by
      by_contra hend
      exact hcut (.done (by simpa using hend))
    have hlong := hf.extend_strangeTail place
    have hlive := (walks_statement f).live hf
    rw [row_of_not_atEnd hlong hend, Notes.errors_append]
    cases bounded_statement hf hend with
    | inside hleft hsame =>
        have hcut' : ¬ Uncut (statement f).feed.advance :=
          fun hrest => hcut (.next hend hleft hrest)
        have hlt := hf.advance_lt hend (walks_statement f)
        have hrest := ih _ (by omega) hlive.advance hcut' rfl
        rw [← Feed.advance_extend hleft] at hrest
        rw [hsame]
        exact hrest.append_right _
    | cut hleft _ hstops =>
        obtain ⟨-, hfeed⟩ | hnoticed := hstops place
        · rw [hfeed, Feed.advance_strangeTail hlive.free hleft]
          exact (row_notices_strange place).append_right _
        · exact hnoticed.append_left _

/-- A row without a diagnostic is not cut. -/
theorem uncut_of_quiet (hf : f.Live) (hquiet : (row f).notes.errors = []) : Uncut f := by
  induction hn : f.following.length using Nat.strongRecOn generalizing f with
  | ind n ih =>
    by_cases hend : f.atEnd = true
    · exact .done hend
    have hend : f.atEnd = false := by simpa using hend
    rw [row_of_not_atEnd hf hend, Notes.errors_append, List.append_eq_nil_iff] at hquiet
    obtain ⟨s, g, hs⟩ := loud_statement f hquiet.1
    obtain ⟨us, hmoves, hspells⟩ := (yields_statement_iff hf).mp hs
    have hne := following_ne_nil_of_moves hf hmoves (isEnd_last_of_statement hspells)
    have hlt := hf.advance_lt hend (walks_statement f)
    have hlive := ((walks_statement f).live hf).advance
    exact .next hend (by rwa [hs.feed]) (ih _ (by omega) hlive hquiet.2 rfl)

end Parse

/-! ## Whole token lists -/

/-- Tokens behind an end token, and an end token behind them, stand behind the feed. -/
theorem ofTokens_extend (ts us : List Token) {e z : Token} (he : e.isEnd = true)
    (hz : z.isEnd = true) :
    Feed.ofTokens (ts ++ e :: (us ++ [z])) = (Feed.ofTokens (ts ++ [e])).extend (us ++ [z]) := by
  have hlong : ts ++ e :: (us ++ [z]) = (ts ++ e :: us) ++ [z] := by simp
  unfold Feed.ofTokens
  rw [closed_of_isEnd ts he, hlong, closed_of_isEnd _ hz]
  cases ts <;> simp [Feed.extend]

/-- Some place is that of none of the tokens. -/
theorem exists_fresh_place (ts : List Token) : ∃ place, ∀ t ∈ ts, place ≠ t.position := by
  obtain ⟨line, hline⟩ := Infinite.exists_notMem_finset (ts.map (·.position.line)).toFinset
  refine ⟨⟨line, 1⟩, fun t ht heq => hline ?_⟩
  rw [List.mem_toFinset, List.mem_map]
  exact ⟨t, ht, by rw [← heq]⟩

/-- **What stands behind the end of the input does not matter, unless a statement is given up on
it.** With an end token behind any tokens, the same program and the same diagnostics are parsed
whatever else stands between it and a last end token, exactly if no statement is given up on the
first of the two end tokens. -/
theorem parse_behind_end_iff (ts : List Token) (e : Token) (he : e.isEnd = true) :
    Parse.Uncut (Feed.ofTokens (ts ++ [e])) ↔ ∀ us z, z.isEnd = true →
      (parse (ts ++ e :: (us ++ [z]))).program = (parse (ts ++ [e])).program ∧
        (parse (ts ++ e :: (us ++ [z]))).errors = (parse (ts ++ [e])).errors := by
  have hlive := Feed.live_ofTokens (ts ++ [e])
  constructor
  · intro huncut us z hz
    have hlong := Feed.live_ofTokens (ts ++ e :: (us ++ [z]))
    have hrow : Parse.row (Feed.ofTokens (ts ++ e :: (us ++ [z]))) =
        (Parse.row (Feed.ofTokens (ts ++ [e]))).extend (us ++ [z]) := by
      rw [ofTokens_extend ts us he hz] at hlong ⊢
      exact huncut.row_extend hlive hlong
    have hstatements : (parse (ts ++ e :: (us ++ [z]))).program.statements =
        (parse (ts ++ [e])).program.statements := by
      rw [statements_parse, statements_parse, hrow]
      rfl
    refine ⟨congrArg Program.mk hstatements, ?_⟩
    rw [errors_parse, errors_parse, hrow]
    rfl
  · intro hsame
    by_contra hcut
    obtain ⟨place, hplace⟩ := exists_fresh_place (closed (ts ++ [e]))
    obtain ⟨d, hd, hposition⟩ := Parse.row_notices hlive hcut place
    have hfeed := ofTokens_extend ts [Feed.strangeToken place] (z := Token.endAt place) he rfl
    have herrors := (hsame [Feed.strangeToken place] (Token.endAt place) rfl).2
    rw [errors_parse, hfeed] at herrors
    -- a diagnostic at a place where no token of the first part stands
    have hmem : d ∈ (parse (ts ++ [e])).errors := by
      rw [← herrors]
      exact hd
    obtain ⟨t, ht, hplace'⟩ := exists_token_of_mem_errors hmem
    exact hplace t ht (hposition.symm.trans hplace')

/-- A loop that breaks off behind the end of a whole declaration changes nothing. -/
theorem parse_behind_end_iff_openLoopTokens :
    (Token.endAt ⟨1, 9⟩).isEnd = true ∧
      Parse.Uncut (Feed.ofTokens (declarationTokens ++ [Token.endAt ⟨1, 9⟩])) ∧
      (parse (declarationTokens ++ Token.endAt ⟨1, 9⟩ ::
          (openLoopTokens ++ [Token.endAt ⟨2, 8⟩]))).program =
        (parse (declarationTokens ++ [Token.endAt ⟨1, 9⟩])).program ∧
      (parse (declarationTokens ++ Token.endAt ⟨1, 9⟩ ::
          (openLoopTokens ++ [Token.endAt ⟨2, 8⟩]))).errors =
        (parse (declarationTokens ++ [Token.endAt ⟨1, 9⟩])).errors := by
  have hquiet : (parse (declarationTokens ++ [Token.endAt ⟨1, 9⟩])).errors = [] := by decide
  rw [errors_parse] at hquiet
  have huncut := Parse.uncut_of_quiet (Feed.live_ofTokens _) hquiet
  exact ⟨rfl, huncut, (parse_behind_end_iff declarationTokens (Token.endAt ⟨1, 9⟩) rfl).mp huncut
    openLoopTokens (Token.endAt ⟨2, 8⟩) rfl⟩

/-- An assignment that breaks off in front of its value. -/
def cutTokens : List Token := [⟨⟨.identifier, "a"⟩, ⟨1, 1⟩⟩, ⟨⟨.symbol, "="⟩, ⟨1, 3⟩⟩]

/-- A declaration behind the end. -/
def behindTokens : List Token :=
  [⟨⟨.reserved, "int"⟩, ⟨1, 6⟩⟩, ⟨⟨.identifier, "b"⟩, ⟨1, 10⟩⟩, ⟨⟨.symbol, "="⟩, ⟨1, 12⟩⟩,
    ⟨⟨.number, "1"⟩, ⟨1, 14⟩⟩, ⟨⟨.symbol, ";"⟩, ⟨1, 15⟩⟩]

/-- Behind an assignment that is given up on the end token, reading goes on. -/
theorem parse_reads_behind_end :
    ¬ ((parse (cutTokens ++ Token.endAt ⟨1, 4⟩ ::
          (behindTokens ++ [Token.endAt ⟨1, 16⟩]))).program =
        (parse (cutTokens ++ [Token.endAt ⟨1, 4⟩])).program ∧
      (parse (cutTokens ++ Token.endAt ⟨1, 4⟩ ::
          (behindTokens ++ [Token.endAt ⟨1, 16⟩]))).errors =
        (parse (cutTokens ++ [Token.endAt ⟨1, 4⟩])).errors) := by
  rintro ⟨hprogram, -⟩
  have hlength := congrArg (fun p => p.statements.length) hprogram
  exact absurd hlength (by decide)

end DoWhile
