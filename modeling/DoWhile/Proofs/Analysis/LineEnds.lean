import DoWhile.CommandLine
import DoWhile.Proofs.Analysis.LayoutIndependence

/-!
# Line ends

The command makes every line end of a file one line feed before it analyses the text. Line ends
stand in gaps only and a gap that has one does not become empty, so the translated text has the
layout of the text with other gaps (`Layout.mapGaps`), and its scan reads the same lexemes
(`scan_lexemes_lineFeeds`). The columns that carriage returns take are lost again at the line feeds
behind them; so if every carriage return has one (`Text.Paired`), no token moves at all
(`scan_lineFeeds`), and the command shows what an analysis of the text itself finds.
-/

set_option autoImplicit false

namespace DoWhile

/-! ## Translated line ends -/

namespace Text

/-- A text with every line end as one line feed. -/
def withLineFeeds (s : String) : String := String.ofList (lineFeeds s.toList)

/-- The bytes of a text are decoded to the text. -/
theorem fromUTF8?_toUTF8 (s : String) : String.fromUTF8? s.toUTF8 = some s := by
  simp only [String.fromUTF8?, Option.dite_none_right_eq_some]
  exact ⟨s.isValidUTF8, rfl⟩

/-- Has every carriage return a line feed right behind it? -/
def Paired : List Char → Prop
  | [] => True
  | c :: cs => (c = '\r' → cs.head? = some '\n') ∧ Paired cs

/-- Whether all carriage returns are paired can be decided from front to back. -/
def decidePaired : (cs : List Char) → Decidable (Paired cs)
  | [] => .isTrue trivial
  | c :: cs =>
    have := decidePaired cs
    inferInstanceAs (Decidable ((c = '\r' → cs.head? = some '\n') ∧ Paired cs))

/-- It is decidable whether all carriage returns are paired. -/
instance (cs : List Char) : Decidable (Paired cs) := decidePaired cs

/-- A character that does not begin a line end of two characters gives one character. -/
theorem lineFeeds_cons {c : Char} {cs : List Char}
    (h : ∀ rest, c = '\r' → cs = '\n' :: rest → False) :
    lineFeeds (c :: cs) = (if c = '\r' then '\n' else c) :: lineFeeds cs := by
  rw [lineFeeds]
  exact h

/-- A text can be translated in two parts if the cut does not part a carriage return from its line
feed. -/
theorem lineFeeds_append (cs : List Char) {ds : List Char} (h : ds.head? ≠ some '\n') :
    lineFeeds (cs ++ ds) = lineFeeds cs ++ lineFeeds ds := by
  induction cs using lineFeeds.induct with
  | case1 => rfl
  | case2 cs ih =>
      rw [List.cons_append, List.cons_append, lineFeeds, lineFeeds, ih, List.cons_append]
  | case3 c cs hfree ih =>
      have hfree' : ∀ rest, c = '\r' → cs ++ ds = '\n' :: rest → False := by
        intro rest hc heq
        cases cs with
        | nil => exact h (congrArg List.head? heq)
        | cons d cs =>
            obtain ⟨rfl, -⟩ := List.cons.inj heq
            exact hfree cs hc rfl
      rw [List.cons_append, lineFeeds_cons hfree', lineFeeds_cons hfree, ih, List.cons_append]

/-- What holds no carriage return stays as it is, whatever stands behind it. -/
theorem lineFeeds_append_of_not_mem {cs : List Char} (h : '\r' ∉ cs) (ds : List Char) :
    lineFeeds (cs ++ ds) = cs ++ lineFeeds ds := by
  induction cs with
  | nil => rfl
  | cons c cs ih =>
      rw [List.mem_cons, not_or] at h
      have hc : c ≠ '\r' := fun heq => h.1 heq.symm
      rw [List.cons_append, lineFeeds_cons fun rest heq _ => hc heq, if_neg hc, ih h.2,
        List.cons_append]

/-- Blanks stay blanks when line ends become line feeds. -/
theorem isBlank_lineFeeds {cs : List Char} (h : cs.all isBlank = true) :
    (lineFeeds cs).all isBlank = true := by
  induction cs using lineFeeds.induct with
  | case1 => rfl
  | case2 cs ih =>
      simp only [List.all_cons, Bool.and_eq_true] at h
      rw [lineFeeds, List.all_cons, ih h.2.2]
      rfl
  | case3 c cs hfree ih =>
      rw [List.all_cons, Bool.and_eq_true] at h
      rw [lineFeeds_cons hfree, List.all_cons, ih h.2, Bool.and_true]
      split
      · rfl
      · exact h.1

/-- Only the empty text has no character left once its line ends are line feeds. -/
theorem eq_nil_of_lineFeeds {cs : List Char} (h : lineFeeds cs = []) : cs = [] := by
  cases cs using lineFeeds.induct with
  | case1 => rfl
  | case2 cs => simp [lineFeeds] at h
  | case3 c cs hfree => simp [lineFeeds_cons hfree] at h

/-- In the rear part of a paired text all carriage returns are paired. -/
theorem Paired.right {cs ds : List Char} (h : Paired (cs ++ ds)) : Paired ds := by
  induction cs with
  | nil => exact h
  | cons c cs ih => exact ih h.2

/-- In the front part of a paired text all carriage returns are paired, if it does not end between
the two characters of a line end. -/
theorem Paired.left {cs ds : List Char} (h : Paired (cs ++ ds)) (hds : ds.head? ≠ some '\n') :
    Paired cs := by
  induction cs with
  | nil => trivial
  | cons c cs ih =>
      refine ⟨fun hc => ?_, ih h.2⟩
      cases cs with
      | nil => exact absurd (h.1 hc) hds
      | cons d cs => exact h.1 hc

/-- A line feed takes back the column of the carriage return in front of it. -/
theorem afterAll_lineFeeds {cs : List Char} (h : Paired cs) (p : Position) :
    p.afterAll (lineFeeds cs) = p.afterAll cs := by
  induction cs using lineFeeds.induct generalizing p with
  | case1 => rfl
  | case2 cs ih =>
      have hplace : (p.after '\r').after '\n' = p.after '\n' := rfl
      rw [lineFeeds, Position.afterAll_cons, Position.afterAll_cons, Position.afterAll_cons,
        hplace, ih h.2.2]
  | case3 c cs hfree ih =>
      have hc : c ≠ '\r' := by
        intro hc
        obtain ⟨rest, hrest⟩ := List.head?_eq_some_iff.mp (h.1 hc)
        exact hfree rest hc hrest
      rw [lineFeeds_cons hfree, if_neg hc, Position.afterAll_cons, Position.afterAll_cons, ih h.2]

end Text

/-! ## Layouts with other gaps -/

namespace Layout

/-- The layout with every gap replaced. -/
def mapGaps (f : List Char → List Char) : Layout → Layout
  | last gap => last (f gap)
  | next gap x more => next (f gap) x (more.mapGaps f)

variable {f : List Char → List Char}

/-- Replacing the gaps keeps the lexemes. -/
@[simp] theorem lexemes_mapGaps (l : Layout) : (l.mapGaps f).lexemes = l.lexemes := by
  induction l with
  | last gap => rfl
  | next gap x more ih => rw [mapGaps, lexemes, ih, lexemes]

/-- Gaps that are replaced by blanks are blank. -/
theorem gapsBlank_mapGaps {l : Layout} (hl : l.gapsBlank = true)
    (hblank : ∀ gap, gap.all isBlank = true → (f gap).all isBlank = true) :
    (l.mapGaps f).gapsBlank = true := by
  induction l with
  | last gap => exact hblank gap hl
  | next gap x more ih =>
      rw [gapsBlank, Bool.and_eq_true] at hl
      rw [mapGaps, gapsBlank, hblank gap hl.1, ih hl.2, Bool.and_self]

/-- Lexemes stay apart if no gap is replaced by nothing that was not empty before. -/
theorem apart_mapGaps {l : Layout} (hl : l.Apart) (hempty : ∀ gap, f gap = [] → gap = []) :
    (l.mapGaps f).Apart := by
  induction l with
  | last gap => trivial
  | next gap x more ih =>
      cases more with
      | last gap' => trivial
      | next gap' y rest =>
          refine ⟨fun hfuses hnil => ?_, ih hl.2⟩
          exact hl.1 hfuses (hempty gap' hnil)

/-- A layout stays sound if its gaps stay blank and none of them becomes empty. -/
theorem Sound.mapGaps {l : Layout} (hl : l.Sound)
    (hblank : ∀ gap, gap.all isBlank = true → (f gap).all isBlank = true)
    (hempty : ∀ gap, f gap = [] → gap = []) : (l.mapGaps f).Sound := by
  have hgaps := gapsBlank_mapGaps hl.gaps hblank
  have hproper : ∀ x ∈ (l.mapGaps f).lexemes, x.isProper = true := by
    rw [lexemes_mapGaps]
    exact hl.proper
  have hapart := (l.maximal_iff_apart hl.gaps hl.proper).mp hl.maximal
  exact ⟨hgaps, hproper, (maximal_iff_apart _ hgaps hproper).mpr (apart_mapGaps hapart hempty)⟩

/-- Behind a gap there is no line feed any more, neither in the lexeme nor as a part of the gap. -/
theorem head?_literal_ne {x : Lexeme} (hx : x.isProper = true) (rest : List Char) :
    (x.literal.toList ++ rest).head? ≠ some '\n' := by
  obtain ⟨c, cs, hcs, hc⟩ := Lexeme.leads_of_isProper hx
  rw [hcs, List.cons_append, List.head?_cons, ne_eq, Option.some.injEq]
  rintro rfl
  exact absurd (Lexeme.not_isBlank_of_leads hc) (by decide)

/-- Translating the line ends of a text translates those in the gaps of its layout. -/
theorem text_lineFeeds {l : Layout} (hproper : ∀ x ∈ l.lexemes, x.isProper = true) :
    (l.mapGaps Text.lineFeeds).text = Text.lineFeeds l.text := by
  induction l with
  | last gap => rfl
  | next gap x more ih =>
      rw [lexemes, List.forall_mem_cons] at hproper
      have hreturn : '\r' ∉ x.literal.toList := fun hmem =>
        absurd (Lexeme.not_isBlank_of_mem hproper.1 hmem) (by decide)
      rw [mapGaps, text, ih hproper.2, text,
        Text.lineFeeds_append gap (head?_literal_ne hproper.1 more.text),
        Text.lineFeeds_append_of_not_mem hreturn]

/-- Where carriage returns stand in front of line feeds only, no token is moved. -/
theorem tokensFrom_lineFeeds {l : Layout} (hproper : ∀ x ∈ l.lexemes, x.isProper = true)
    (hpaired : Text.Paired l.text) (p : Position) :
    (l.mapGaps Text.lineFeeds).tokensFrom p = l.tokensFrom p := by
  induction l generalizing p with
  | last gap =>
      have hgap : Text.Paired gap := hpaired
      rw [mapGaps, tokensFrom, tokensFrom, Text.afterAll_lineFeeds hgap]
  | next gap x more ih =>
      rw [lexemes, List.forall_mem_cons] at hproper
      have hgap : Text.Paired gap := hpaired.left (head?_literal_ne hproper.1 more.text)
      have hmore : Text.Paired more.text := hpaired.right.right
      rw [mapGaps, tokensFrom, tokensFrom, Text.afterAll_lineFeeds hgap, ih hproper.2 hmore]

end Layout

/-! ## The scan -/

/-- A text has a sound layout whose line ends can be changed gap by gap, and the result is a sound
layout of the changed text. -/
theorem exists_sound_withLineFeeds (s : String) : ∃ l : Layout, l.Sound ∧ l.text = s.toList ∧
    (l.mapGaps Text.lineFeeds).Sound ∧
    (l.mapGaps Text.lineFeeds).text = (Text.withLineFeeds s).toList := by
  obtain ⟨l, hl, htext⟩ := exists_sound_text s.toList
  refine ⟨l, hl, htext, ?_, ?_⟩
  · exact hl.mapGaps (fun _ => Text.isBlank_lineFeeds) (fun _ => Text.eq_nil_of_lineFeeds)
  · rw [Layout.text_lineFeeds hl.proper, htext, Text.withLineFeeds, String.toList_ofList]

/-- A text and its translation are scanned to the same lexemes. -/
theorem scan_lexemes_lineFeeds (s : String) :
    (scan (Text.withLineFeeds s)).map (·.toLexeme) = (scan s).map (·.toLexeme) := by
  obtain ⟨l, hl, htext, hfed, hfedText⟩ := exists_sound_withLineFeeds s
  rw [scan_lexemes hfed hfedText, scan_lexemes hl htext, Layout.lexemes_mapGaps]

/-- If every carriage return has its line feed, they are scanned to the same tokens. -/
theorem scan_lineFeeds {s : String} (hs : Text.Paired s.toList) :
    scan (Text.withLineFeeds s) = scan s := by
  obtain ⟨l, hl, htext, hfed, hfedText⟩ := exists_sound_withLineFeeds s
  rw [scan_text hfed hfedText, scan_text hl htext]
  exact Layout.tokensFrom_lineFeeds hl.proper (by rw [htext]; exact hs) Position.start

/-! ## The analysis -/

/-- Diagnostics that correspond have the same messages. -/
theorem Diagnostic.messages_eq {ts us : List Token} {ds es : List Diagnostic}
    (h : List.Forall₂ (Diagnostic.Corresponds ts us) ds es) :
    ds.map (·.message) = es.map (·.message) := by
  induction h with
  | nil => rfl
  | cons hd _ ih => rw [List.map_cons, List.map_cons, hd.message, ih]

/-- Analyses that differ in places only raise diagnostics with the same wordings. -/
theorem Analysis.Alike.messages {a b : Analysis} (h : a.Alike b) :
    a.diagnostics.map (·.message) = b.diagnostics.map (·.message) := by
  unfold diagnostics
  rw [List.map_append, List.map_append, Diagnostic.messages_eq h.syntaxErrors,
    Diagnostic.messages_eq h.namingErrors]

/-- Texts with the same tokens have the same diagnostics and symbols. -/
theorem analyze_of_scan_eq (implicit : List String) {s t : String} (h : scan s = scan t) :
    (analyze implicit s).diagnostics = (analyze implicit t).diagnostics ∧
      (analyze implicit s).symbols = (analyze implicit t).symbols := by
  have hdiagnostics : ∀ s, (analyze implicit s).diagnostics =
      (parse (scan s)).errors ++ ((parse (scan s)).program.check implicit).checker.errors :=
    fun _ => rfl
  have hsymbols : ∀ s, (analyze implicit s).symbols =
      ((parse (scan s)).program.check implicit).checker.table := fun _ => rfl
  rw [hdiagnostics, hdiagnostics, hsymbols, hsymbols, h]
  exact ⟨rfl, rfl⟩

namespace CommandLine

/-- Do the arguments ask for a file that can be read and whose bytes are the text `s`? -/
def Opens (reader : Reader) (args : List String) (s : String) : Prop :=
  ∃ p bytes, request args = .ok (some p) ∧ reader p = .ok bytes ∧
    String.fromUTF8? bytes = some s

/-- A file is analysed with its line ends translated. -/
theorem run_of_opens {reader : Reader} {args : List String} {s : String}
    (h : Opens reader args s) (elapsed : String) :
    run reader elapsed args =
      .ok (listing elapsed (analyze defaultImplicit (Text.withLineFeeds s))) := by
  obtain ⟨p, bytes, hrequest, hread, hbytes⟩ := h
  have hdecode : decode bytes = .ok (Text.withLineFeeds s) := by
    rw [decode, hbytes]
    rfl
  have houtcome : outcome reader args =
      .ok (.analysis (analyze defaultImplicit (Text.withLineFeeds s))) := by
    simp only [outcome, hrequest, hread, bind, Except.bind, hdecode]
    rfl
  rw [run, houtcome]
  rfl

/-- The listing of texts with the same tokens is the same. -/
theorem listing_of_scan_eq (elapsed : String) (implicit : List String) {s t : String}
    (h : scan s = scan t) :
    listing elapsed (analyze implicit s) = listing elapsed (analyze implicit t) := by
  obtain ⟨hdiagnostics, hsymbols⟩ := analyze_of_scan_eq implicit h
  have htokens : (analyze implicit s).tokens = (analyze implicit t).tokens := h
  unfold listing lines summaryLine
  rw [hdiagnostics, hsymbols, htokens]

end CommandLine

/-- **Line ends do not matter.** A text and its translation are scanned to the same lexemes and
analysed alike, with the same wordings in the same order. If every carriage return has a line feed
right behind it, their tokens are the same and so are the rows of their diagnostics; and for a file
with such a text the command, which analyses the translation, prints the listing of the analysis of
the text itself. -/
theorem analyze_withLineFeeds (s : String) :
    (scan (Text.withLineFeeds s)).map (·.toLexeme) = (scan s).map (·.toLexeme) ∧
      (∀ implicit, (analyze implicit (Text.withLineFeeds s)).Alike (analyze implicit s) ∧
        (analyze implicit (Text.withLineFeeds s)).diagnostics.map (·.message) =
          (analyze implicit s).diagnostics.map (·.message)) ∧
      (∀ reader args elapsed, CommandLine.Opens reader args s →
        CommandLine.run reader elapsed args =
          .ok (CommandLine.listing elapsed (analyze defaultImplicit (Text.withLineFeeds s)))) ∧
      (Text.Paired s.toList →
        scan (Text.withLineFeeds s) = scan s ∧
        (∀ implicit, (analyze implicit (Text.withLineFeeds s)).report.errors =
          (analyze implicit s).report.errors) ∧
        ∀ reader args elapsed, CommandLine.Opens reader args s →
          CommandLine.run reader elapsed args =
            .ok (CommandLine.listing elapsed (analyze defaultImplicit s))) := by
  refine ⟨scan_lexemes_lineFeeds s, ?_, ?_, ?_⟩
  · intro implicit
    have halike := analyze_alike implicit (scan_lexemes_lineFeeds s)
    exact ⟨halike, halike.messages⟩
  · intro reader args elapsed hopens
    exact CommandLine.run_of_opens hopens elapsed
  · intro hs
    refine ⟨scan_lineFeeds hs, ?_, ?_⟩
    · intro implicit
      rw [Analysis.report, Analysis.report, (analyze_of_scan_eq implicit (scan_lineFeeds hs)).1]
    · intro reader args elapsed hopens
      rw [CommandLine.run_of_opens hopens, CommandLine.listing_of_scan_eq elapsed _
        (scan_lineFeeds hs)]

/-- A carriage return that stands alone takes a column, and its line feed takes a line. -/
example : scan (Text.withLineFeeds "a\rb") ≠ scan "a\rb" := by decide +kernel

/-- A text with line ends of two characters, a word that is cut off, and a stray character. -/
def pairedText : String := "int a = b\r\n\r\n\ta =\r\n?"

/-- A reader that finds that text in one file and no other file. -/
def pairedFiles : CommandLine.Reader := fun p =>
  if p = ⟨.top, ["srv", "a.txt"]⟩ then .ok pairedText.toUTF8
  else .error ⟨2, "No such file or directory", true⟩

/-- The command prints the places of such a text as they are in the file. -/
theorem analyze_withLineFeeds_pairedText :
    Text.Paired pairedText.toList ∧ CommandLine.Opens pairedFiles ["/srv/a.txt"] pairedText ∧
      scan (Text.withLineFeeds pairedText) = scan pairedText ∧
      CommandLine.run pairedFiles "0.10" ["/srv/a.txt"] =
        .ok (CommandLine.listing "0.10" (analyze defaultImplicit pairedText)) := by
  have hpaired : Text.Paired pairedText.toList := by decide
  have hopens : CommandLine.Opens pairedFiles ["/srv/a.txt"] pairedText :=
    ⟨⟨.top, ["srv", "a.txt"]⟩, pairedText.toUTF8, rfl, rfl, Text.fromUTF8?_toUTF8 pairedText⟩
  obtain ⟨-, -, -, hsame⟩ := analyze_withLineFeeds pairedText
  obtain ⟨hscan, -, hrun⟩ := hsame hpaired
  exact ⟨hpaired, hopens, hscan, hrun pairedFiles ["/srv/a.txt"] "0.10" hopens⟩

end DoWhile
