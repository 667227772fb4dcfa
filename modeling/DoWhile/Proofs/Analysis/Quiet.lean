import DoWhile.Analysis
import DoWhile.Proofs.Checker.Exact
import DoWhile.Proofs.Parse.Acceptance
import DoWhile.Proofs.Token.Layout

/-!
# Texts without diagnostics

A text is a layout of a program if it is made of the lexemes of the program, with blanks between
them wherever two would fuse (`Program.WrittenAs`). For a well-formed program this is the same as
being scanned into these lexemes (`writtenAs_iff`), so the three stages meet: an analysis raises no
diagnostic exactly on the layouts of well-formed programs whose names are resolved
(`analyze_quiet_iff`).
-/

set_option autoImplicit false

namespace DoWhile

/-- Is the text a layout of the program? -/
def Program.WrittenAs (p : Program) (source : String) : Prop :=
  ∃ l : Layout, l.lexemes = p.lexemes ∧ l.gapsBlank = true ∧ l.Apart ∧ l.text = source.toList

/-! ## From the text to the tokens -/

/-- The tokens of a scan in front of its end carry the lexemes of any sound layout of the text. -/
theorem inner_scan {l : Layout} {source : String} (hl : l.Sound) (htext : l.text = source.toList) :
    (inner (scan source)).map (·.toLexeme) = l.lexemes := by
  obtain ⟨ts, q, hts, hlexemes, hproper⟩ := scan_eq hl htext
  rw [hts, ← hlexemes]
  exact congrArg _ (regular_of_isProper hproper (some q)).2

/-- The tokens of a scan are regular. -/
theorem regular_scan (source : String) : Regular (scan source) := by
  obtain ⟨ts, q, hts, hproper⟩ := exists_scan_eq source
  rw [hts]
  exact (regular_of_isProper hproper (some q)).1

/-- A text is a layout of a well-formed program exactly if it is scanned into its lexemes. -/
theorem writtenAs_iff {p : Program} (hp : p.WellFormed) (source : String) :
    p.WrittenAs source ↔ p.lexemes = (inner (scan source)).map (·.toLexeme) := by
  constructor
  · rintro ⟨l, hlexemes, hgaps, hapart, htext⟩
    have hproper : ∀ x ∈ l.lexemes, x.isProper = true := by
      rw [hlexemes]
      exact hp.proper
    have hl : l.Sound := ⟨hgaps, hproper, (l.maximal_iff_apart hgaps hproper).mpr hapart⟩
    rw [inner_scan hl htext, hlexemes]
  · intro hlexemes
    obtain ⟨l, hl, htext⟩ := exists_sound_text source.toList
    have hapart : l.Apart := (l.maximal_iff_apart hl.gaps hl.proper).mp hl.maximal
    exact ⟨l, by rw [hlexemes, inner_scan hl htext], hl.gaps, hapart, htext⟩

/-! ## The three stages -/

/-- An analysis raises nothing exactly if reading raises nothing and every name of the program is
resolved. -/
theorem diagnostics_eq_nil_iff (implicit : List String) (source : String) :
    (analyze implicit source).diagnostics = [] ↔
      (parse (scan source)).errors = [] ∧
        (analyze implicit source).program.Resolved implicit := by
  rw [Analysis.diagnostics, List.append_eq_nil_iff]
  exact and_congr_right fun _ => Checker.check_quiet_iff implicit (parse (scan source)).program

/-- The layout of a well-formed program is parsed without a diagnostic, and read back. -/
theorem analyze_of_writtenAs {p : Program} {source : String} (implicit : List String)
    (hp : p.WellFormed) (hsource : p.WrittenAs source) :
    (parse (scan source)).errors = [] ∧ p.unplaced = (analyze implicit source).program.unplaced :=
  parse_complete (regular_scan source) hp ((writtenAs_iff hp source).mp hsource)

/-- **The texts without diagnostics.** An analysis raises no diagnostic if and only if the text is a
layout of a well-formed program in which no name is declared twice and every used one is declared or
implicit. Then the analysis gives back that program, up to positions, and its table lists the
declared names in order. -/
theorem analyze_quiet_iff (implicit : List String) (source : String) :
    ((analyze implicit source).diagnostics = [] ↔
        ∃ p : Program, p.WellFormed ∧ p.WrittenAs source ∧ p.Resolved implicit) ∧
      ∀ p : Program, p.WellFormed → p.WrittenAs source → p.Resolved implicit →
        (analyze implicit source).program.unplaced = p.unplaced ∧
          (analyze implicit source).symbols.names = p.declaredNames := by
  constructor
  · rw [diagnostics_eq_nil_iff]
    constructor
    · rintro ⟨hquiet, hresolved⟩
      obtain ⟨hp, hlexemes⟩ := parse_sound (regular_scan source) hquiet
      exact ⟨_, hp, (writtenAs_iff hp source).mpr hlexemes, hresolved⟩
    · rintro ⟨p, hp, hsource, hresolved⟩
      obtain ⟨hquiet, hsame⟩ := analyze_of_writtenAs implicit hp hsource
      exact ⟨hquiet, hresolved.congr hsame⟩
  · intro p hp hsource hresolved
    obtain ⟨-, hsame⟩ := analyze_of_writtenAs implicit hp hsource
    refine ⟨hsame.symm, ?_⟩
    rw [Program.declaredNames_congr hsame]
    exact Checker.check_names (hresolved.congr hsame)

/-- The loop that counts up, with a blank only where two words would fuse. -/
def countingText : String := "int a=1;do\x7ba=a+1;\x7dwhile(a==9);"

/-- The parts of that text. -/
def countingLayout : Layout :=
  (([] :: [' '] :: List.replicate 19 []).zip countingLoop.lexemes).foldr
    (fun part more => .next part.1 part.2 more) (.last [])

/-- A loop that counts a declared variable up is analysed without a diagnostic, and only that
variable is in the table. -/
theorem analyze_quiet_countingText :
    countingLoop.WellFormed ∧ countingLoop.WrittenAs countingText ∧ countingLoop.Resolved [] ∧
      (analyze [] countingText).diagnostics = [] ∧
      (analyze [] countingText).program.unplaced = countingLoop.unplaced ∧
      (analyze [] countingText).symbols.names = ["a"] := by
  have hwell : countingLoop.WellFormed := ⟨by decide, by decide⟩
  have hapart : countingLayout.Apart := by decide
  have hwritten : countingLoop.WrittenAs countingText :=
    ⟨countingLayout, by decide, by decide, hapart, by decide⟩
  have hresolved : countingLoop.Resolved [] := ⟨by decide, by decide⟩
  obtain ⟨hquiet, hresult⟩ := analyze_quiet_iff [] countingText
  obtain ⟨hprogram, hnames⟩ := hresult countingLoop hwell hwritten hresolved
  exact ⟨hwell, hwritten, hresolved, hquiet.mpr ⟨_, hwell, hwritten, hresolved⟩, hprogram, hnames⟩

end DoWhile
