import DoWhile.Proofs.Analysis.Counting
import DoWhile.Proofs.Analysis.LineEnds
import DoWhile.Proofs.Analysis.Wording
import DoWhile.Text.Upper
import Mathlib

/-!
# The listing and the report

The command and the report are two views of one analysis, and the listing can be told from the
report alone (`CommandLine.run_of_reads`): the two ways of counting tokens agree on a scan
(`total_scan`), and all else is copied. The other way round, the listing gives back what the report
says of diagnostics and symbols (`CommandLine.report_of_stdout_eq`). Its lines can be told apart,
because no line in front of the summary has a line break in it or begins as the summary does; a line
for a diagnostic begins with a bracket and a line for a symbol with a letter; and in a line for a
diagnostic each part ends at the first mark of the kind that follows it.
-/

set_option autoImplicit false

namespace DoWhile

/-! ## Reading texts back -/

/-- Texts that go on with the same mark behind parts without that mark agree part by part. -/
theorem append_mark_inj {c : Char} {l m r s : List Char} (hl : c ∉ l) (hm : c ∉ m)
    (h : l ++ c :: r = m ++ c :: s) : l = m ∧ r = s := by
  induction l generalizing m with
  | nil =>
      cases m with
      | nil => exact ⟨rfl, (List.cons.inj h).2⟩
      | cons b m =>
          obtain ⟨rfl, -⟩ := List.cons.inj h
          exact absurd List.mem_cons_self hm
  | cons a l ih =>
      cases m with
      | nil =>
          obtain ⟨rfl, -⟩ := List.cons.inj h
          exact absurd List.mem_cons_self hl
      | cons b m =>
          obtain ⟨rfl, htail⟩ := List.cons.inj h
          obtain ⟨rfl, hrest⟩ := ih (List.not_mem_of_not_mem_cons hl)
            (List.not_mem_of_not_mem_cons hm) htail
          exact ⟨rfl, hrest⟩

/-- The lines of a text, each with the line feed behind it. -/
def lined (ls : List String) : List Char := ls.flatMap fun l => l.toList ++ ['\n']

/-- The first line stands in front, with a line feed behind it. -/
theorem lined_cons (l : String) (ls : List String) :
    lined (l :: ls) = l.toList ++ '\n' :: lined ls := by
  rw [lined, List.flatMap_cons, List.append_assoc, List.singleton_append, lined]

/-- The lines of two listings are printed behind one another. -/
theorem lined_append (ls ms : List String) : lined (ls ++ ms) = lined ls ++ lined ms := by
  rw [lined, List.flatMap_append, lined, lined]

/-- Printing every line with a line feed behind it gives the lined text. -/
theorem toList_join_lines (ls : List String) :
    (String.join (ls.map (· ++ "\n"))).toList = lined ls := by
  rw [String.toList_join, List.flatMap_map, lined]
  congr 1
  funext l
  exact String.toList_append

/-- If no line begins with the character with which the remainder begins, lines can be told from the
remainder behind them. -/
theorem lined_append_inj {c : Char} (hc : c ≠ '\n') {ls ms : List String} {t u : List Char}
    (hls : ∀ l ∈ ls, OneLine l ∧ l.toList.head? ≠ some c)
    (hms : ∀ m ∈ ms, OneLine m ∧ m.toList.head? ≠ some c)
    (ht : t.head? = some c) (hu : u.head? = some c) (h : lined ls ++ t = lined ms ++ u) :
    ls = ms := by
  have hhead : ∀ (l : String) (r : List Char), l.toList.head? ≠ some c →
      (l.toList ++ '\n' :: r).head? ≠ some c := by
    intro l r hl
    rw [List.head?_append]
    cases hfirst : l.toList.head? with
    | none => simpa using hc.symm
    | some a =>
        rw [hfirst] at hl
        exact hl
  induction ls generalizing ms with
  | nil =>
      cases ms with
      | nil => rfl
      | cons m ms =>
          rw [lined_cons, List.append_assoc, List.cons_append] at h
          have hm := hhead m (lined ms ++ u) (hms m List.mem_cons_self).2
          rw [← h] at hm
          exact absurd ht hm
  | cons l ls ih =>
      cases ms with
      | nil =>
          rw [lined_cons, List.append_assoc, List.cons_append] at h
          have hl := hhead l (lined ls ++ t) (hls l List.mem_cons_self).2
          rw [h] at hl
          exact absurd hu hl
      | cons m ms =>
          rw [lined_cons, lined_cons, List.append_assoc, List.append_assoc, List.cons_append,
            List.cons_append] at h
          obtain ⟨hfirst, hrest⟩ := append_mark_inj (hls l List.mem_cons_self).1
            (hms m List.mem_cons_self).1 h
          rw [String.toList_inj.mp hfirst, ih (fun k hk => hls k (List.mem_cons_of_mem _ hk))
            (fun k hk => hms k (List.mem_cons_of_mem _ hk)) hrest]

/-- A written number has no characters but digits and a sign. -/
theorem notMem_toString (n : Int) {c : Char} (hdigit : c.isDigit = false) (hsign : c ≠ '-') :
    c ∉ (toString n).toList := by
  have hnat : ∀ m : Nat, c ∉ m.repr.toList := by
    intro m hm
    rw [Nat.repr, String.toList_ofList] at hm
    have hisDigit := Nat.isDigit_of_mem_toDigits (by decide) (by decide) hm
    rw [hdigit] at hisDigit
    exact absurd hisDigit (by decide)
  cases n with
  | ofNat m => exact hnat m
  | negSucc m =>
      show c ∉ ("-" ++ (m + 1).repr).toList
      rw [String.toList_append, List.mem_append]
      exact not_or.mpr ⟨by simpa using hsign, hnat _⟩

/-! ## The lines of a report -/

/-- The line that is printed for the row of a diagnostic. -/
def ErrorRow.printed (r : ErrorRow) : String :=
  "[" ++ Text.upper r.origin ++ "] line " ++ toString r.line ++ ", column " ++ toString r.column
    ++ ": " ++ r.message

/-- The line that is printed for the row of a symbol. -/
def SymbolRow.printed (r : SymbolRow) : String := r.type ++ " " ++ r.name

/-- The line that is printed last. -/
def Report.summary (elapsed : String) (r : Report) : String :=
  "Tokens: " ++ toString r.counts.total ++ " | Errors: " ++ toString r.errors.length
    ++ " | Time: " ++ elapsed ++ " ms"

/-- What the command leaves behind, told from the report: a line for each row of a diagnostic, one
for each row of a symbol and the summary, each with a line feed behind it. -/
def Report.printed (elapsed : String) (r : Report) : CommandLine.Console :=
  { exit := if r.errors = [] then 0 else 1
    stdout := String.join ((r.errors.map ErrorRow.printed ++ r.symbols.map SymbolRow.printed ++
      [r.summary elapsed]).map (· ++ "\n"))
    stderr := "" }

/-- The banner of an origin determines its name. -/
theorem Origin.name_of_banner_eq {o o' : Origin} (h : o.banner = o'.banner) : o.name = o'.name := by
  cases o <;> cases o' <;> simp [Origin.banner, Origin.name] at h ⊢

/-- The banner of an origin is its name in capitals. -/
theorem Origin.upper_name (o : Origin) : Text.upper o.name = o.banner := by
  cases o <;> decide +kernel

/-- The line for the row of a diagnostic is the line for the diagnostic. -/
theorem printed_ofDiagnostic (d : Diagnostic) :
    (ErrorRow.ofDiagnostic d).printed = CommandLine.diagnosticLine d := by
  unfold ErrorRow.printed CommandLine.diagnosticLine ErrorRow.ofDiagnostic
  rw [Origin.upper_name]

namespace CommandLine

/-- The line of a diagnostic is one line if its message is. -/
theorem oneLine_diagnosticLine {d : Diagnostic} (hd : OneLine d.message) :
    OneLine (diagnosticLine d) := by
  have hbanner : OneLine d.origin.banner := by
    cases d.origin <;> decide
  have hnumber : ∀ n : Int, OneLine (toString n) := fun n =>
    notMem_toString n (by decide) (by decide)
  unfold diagnosticLine
  exact ((((((OneLine.append (by decide) hbanner).append (by decide)).append (hnumber _)).append
    (by decide)).append (hnumber _)).append (by decide)).append hd

/-- The line of a diagnostic in parts: banner, line, column and message. -/
theorem toList_diagnosticLine (d : Diagnostic) :
    (diagnosticLine d).toList = ('[' :: d.origin.banner.toList) ++ ']' ::
      ((" line ".toList ++ (toString d.position.line).toList) ++ ',' ::
        ((" column ".toList ++ (toString d.position.column).toList) ++ ':' ::
          (' ' :: d.message.toList))) := by
  simp only [diagnosticLine, String.toList_append, List.append_assoc, List.cons_append]
  rfl

/-- The line of a diagnostic tells its row. -/
theorem row_of_diagnosticLine_eq {d e : Diagnostic} (h : diagnosticLine d = diagnosticLine e) :
    ErrorRow.ofDiagnostic d = ErrorRow.ofDiagnostic e := by
  have hbanner : ∀ o : Origin, ']' ∉ '[' :: o.banner.toList := by
    intro o
    cases o <;> decide
  have hnumber : ∀ (w : String) (n : Int) (c : Char), c ∉ w.toList → c.isDigit = false → c ≠ '-' →
      c ∉ w.toList ++ (toString n).toList := by
    intro w n c hw hdigit hsign
    rw [List.mem_append]
    exact not_or.mpr ⟨hw, notMem_toString n hdigit hsign⟩
  have hsame := congrArg String.toList h
  rw [toList_diagnosticLine, toList_diagnosticLine] at hsame
  obtain ⟨horigin, hsame⟩ := append_mark_inj (hbanner _) (hbanner _) hsame
  obtain ⟨hline, hsame⟩ := append_mark_inj (hnumber _ _ _ (by decide) (by decide) (by decide))
    (hnumber _ _ _ (by decide) (by decide) (by decide)) hsame
  obtain ⟨hcolumn, hsame⟩ := append_mark_inj (hnumber _ _ _ (by decide) (by decide) (by decide))
    (hnumber _ _ _ (by decide) (by decide) (by decide)) hsame
  have hname : d.origin.name = e.origin.name :=
    Origin.name_of_banner_eq (String.toList_inj.mp (List.cons.inj horigin).2)
  have hlines : d.position.line = e.position.line :=
    Int.repr_inj.mp (String.toList_inj.mp (List.append_cancel_left hline))
  have hcolumns : d.position.column = e.position.column :=
    Int.repr_inj.mp (String.toList_inj.mp (List.append_cancel_left hcolumn))
  have hmessage : d.message = e.message := String.toList_inj.mp (List.cons.inj hsame).2
  unfold ErrorRow.ofDiagnostic
  rw [hname, hlines, hcolumns, hmessage]

/-! ## Telling the parts of a listing apart -/

/-- The line of a diagnostic begins with a bracket. -/
theorem head?_diagnosticLine (d : Diagnostic) : (diagnosticLine d).toList.head? = some '[' := by
  rw [toList_diagnosticLine]
  rfl

/-- The line of a symbol of type `int` begins with the letter of that type. -/
theorem head?_symbolLine {s : Symbol} (hs : s.typeName = "int") :
    (symbolLine s).toList.head? = some 'i' := by
  rw [symbolLine, hs, String.toList_append, String.toList_append]
  rfl

/-- The line of a symbol of type `int` is one line if its name is. -/
theorem oneLine_symbolLine {s : Symbol} (hs : s.typeName = "int" ∧ OneLine s.name) :
    OneLine (symbolLine s) := by
  rw [symbolLine, hs.1]
  exact (by decide : OneLine ("int" ++ " ")).append hs.2

/-- The lines in front of the summary. -/
def front (a : Analysis) : List String :=
  a.diagnostics.map diagnosticLine ++ a.symbols.symbols.map symbolLine

variable {implicit implicit' : List String} {source source' : String}

/-- Every line in front of the summary is one line and does not begin like the summary. -/
theorem front_analyze {l : String} (hl : l ∈ front (analyze implicit source)) :
    OneLine l ∧ l.toList.head? ≠ some 'T' := by
  rcases List.mem_append.mp hl with hdiagnostic | hsymbol
  · obtain ⟨d, hd, rfl⟩ := List.mem_map.mp hdiagnostic
    rw [head?_diagnosticLine]
    exact ⟨oneLine_diagnosticLine (oneLine_message hd), by decide⟩
  · obtain ⟨s, hs, rfl⟩ := List.mem_map.mp hsymbol
    rw [head?_symbolLine (of_mem_symbols hs).1]
    exact ⟨oneLine_symbolLine (of_mem_symbols hs), by decide⟩

/-- The listing is the lines in front and then the summary, each with a line feed behind it. -/
theorem toList_stdout_listing (elapsed : String) (a : Analysis) :
    (listing elapsed a).stdout.toList = lined (front a) ++ lined [summaryLine elapsed a] := by
  rw [← lined_append]
  exact toList_join_lines (lines elapsed a)

/-- The summary begins with a capital letter that no other line begins with. -/
theorem head?_lined_summaryLine (elapsed : String) (a : Analysis) :
    (lined [summaryLine elapsed a]).head? = some 'T' := by
  rw [lined_cons, summaryLine]
  simp only [String.toList_append, List.append_assoc]
  rfl

/-- The lines of diagnostics are those in front that begin with a bracket. -/
theorem filter_front (implicit : List String) (source : String) :
    (front (analyze implicit source)).filter (fun l => l.toList.head? = some '[') =
        (analyze implicit source).diagnostics.map diagnosticLine ∧
      (front (analyze implicit source)).filter (fun l => l.toList.head? ≠ some '[') =
        (analyze implicit source).symbols.symbols.map symbolLine := by
  have hdiagnostics : ∀ l ∈ (analyze implicit source).diagnostics.map diagnosticLine,
      l.toList.head? = some '[' := by
    intro l hl
    obtain ⟨d, -, rfl⟩ := List.mem_map.mp hl
    exact head?_diagnosticLine d
  have hsymbols : ∀ l ∈ (analyze implicit source).symbols.symbols.map symbolLine,
      l.toList.head? ≠ some '[' := by
    intro l hl
    obtain ⟨s, hs, rfl⟩ := List.mem_map.mp hl
    rw [head?_symbolLine (of_mem_symbols hs).1]
    decide
  constructor
  · rw [front, List.filter_append, List.filter_eq_self.mpr (by simpa using hdiagnostics),
      List.filter_eq_nil_iff.mpr (by simpa using hsymbols), List.append_nil]
  · rw [front, List.filter_append, List.filter_eq_nil_iff.mpr (by simpa using hdiagnostics),
      List.filter_eq_self.mpr (by simpa using hsymbols), List.nil_append]

/-- What each item is told by tells, in a list of items, all that it determines. -/
theorem map_eq_of_map_eq {α β γ : Type} {f : α → β} {g : α → γ} {as bs : List α}
    (hfg : ∀ a ∈ as, ∀ b ∈ bs, f a = f b → g a = g b) (h : as.map f = bs.map f) :
    as.map g = bs.map g := by
  induction as generalizing bs with
  | nil =>
      rw [List.map_nil, eq_comm, List.map_eq_nil_iff] at h
      rw [h]
  | cons a as ih =>
      cases bs with
      | nil => cases h
      | cons b bs =>
          obtain ⟨hfirst, hrest⟩ := List.cons.inj h
          have hitem := hfg a List.mem_cons_self b List.mem_cons_self hfirst
          rw [List.map_cons, List.map_cons, hitem, ih (fun a ha b hb =>
            hfg a (List.mem_cons_of_mem _ ha) b (List.mem_cons_of_mem _ hb)) hrest]

/-- The line of a symbol tells its name and its type. -/
theorem symbol_of_symbolLine_eq {s t : Symbol} (hs : s.typeName = "int") (ht : t.typeName = "int")
    (h : symbolLine s = symbolLine t) : (s.name, s.typeName) = (t.name, t.typeName) := by
  have hlists := congrArg String.toList h
  simp only [symbolLine, hs, ht, String.toList_append] at hlists
  have hname : s.name = t.name := String.toList_inj.mp (List.append_cancel_left hlists)
  rw [hs, ht, hname]

/-- Listings that agree come from the same rows of diagnostics and from symbols of the same names
and types, whatever stands in the place of the time. -/
theorem report_of_stdout_eq {elapsed elapsed' : String}
    (h : (listing elapsed (analyze implicit source)).stdout =
      (listing elapsed' (analyze implicit' source')).stdout) :
    (analyze implicit source).report.errors = (analyze implicit' source').report.errors ∧
      ((analyze implicit source).report.symbols.map fun r => (r.name, r.type)) =
        (analyze implicit' source').report.symbols.map fun r => (r.name, r.type) := by
  have hlists := congrArg String.toList h
  rw [toList_stdout_listing, toList_stdout_listing] at hlists
  have hfront := lined_append_inj (by decide) (fun l hl => front_analyze hl)
    (fun l hl => front_analyze hl) (head?_lined_summaryLine _ _) (head?_lined_summaryLine _ _)
    hlists
  obtain ⟨hdiagnostics, hsymbols⟩ := filter_front implicit source
  obtain ⟨hdiagnostics', hsymbols'⟩ := filter_front implicit' source'
  rw [← hfront, hdiagnostics] at hdiagnostics'
  rw [← hfront, hsymbols] at hsymbols'
  constructor
  · exact map_eq_of_map_eq (fun _ _ _ _ => row_of_diagnosticLine_eq) hdiagnostics'
  · rw [Analysis.report, Analysis.report, List.map_map, List.map_map]
    exact map_eq_of_map_eq (fun s hs t ht =>
      symbol_of_symbolLine_eq (of_mem_symbols hs).1 (of_mem_symbols ht).1) hsymbols'

/-! ## The command -/

/-- The listing of an analysis can be told from its report. -/
theorem listing_eq_printed (elapsed : String) (implicit : List String) (source : String) :
    listing elapsed (analyze implicit source) =
      (analyze implicit source).report.printed elapsed := by
  have hexit : (if (analyze implicit source).diagnostics.isEmpty then 0 else 1) =
      if (analyze implicit source).report.errors = [] then 0 else 1 := by
    rw [Analysis.report]
    simp only [List.isEmpty_iff, List.map_eq_nil_iff]
  have hsummary : summaryLine elapsed (analyze implicit source) =
      (analyze implicit source).report.summary elapsed := by
    have htotal : ((analyze implicit source).tokens.length : Int) - 1 =
        (analyze implicit source).report.counts.total := (total_scan source).symm
    have hcount : (analyze implicit source).diagnostics.length =
        (analyze implicit source).report.errors.length := (List.length_map _).symm
    rw [summaryLine, htotal, hcount, Report.summary]
    rfl
  have hlines : lines elapsed (analyze implicit source) =
      (analyze implicit source).report.errors.map ErrorRow.printed ++
        (analyze implicit source).report.symbols.map SymbolRow.printed ++
          [(analyze implicit source).report.summary elapsed] := by
    rw [lines, hsummary, Analysis.report, List.map_map, List.map_map]
    have hprinted : ErrorRow.printed ∘ ErrorRow.ofDiagnostic = diagnosticLine :=
      funext printed_ofDiagnostic
    rw [hprinted]
    rfl
  rw [listing, hexit, hlines, Report.printed]

/-- Do the arguments ask for a file that can be read and whose decoded text is `s`? -/
def Reads (reader : Reader) (args : List String) (s : String) : Prop :=
  ∃ p bytes, request args = .ok (some p) ∧ reader p = .ok bytes ∧ decode bytes = .ok s

/-- A decoded text is the text of the bytes with its line ends translated. -/
theorem Reads.exists_opens {reader : Reader} {args : List String} {s : String}
    (h : Reads reader args s) : ∃ t, Opens reader args t ∧ Text.withLineFeeds t = s := by
  obtain ⟨p, bytes, hrequest, hread, hdecode⟩ := h
  cases hbytes : String.fromUTF8? bytes with
  | none =>
      rw [decode, hbytes] at hdecode
      cases hdecode
  | some t =>
      rw [decode, hbytes] at hdecode
      exact ⟨t, ⟨p, bytes, hrequest, hread, hbytes⟩, Except.ok.inj hdecode⟩

/-- The command prints the report of the text of its file. -/
theorem run_of_reads {reader : Reader} {args : List String} {s : String}
    (h : Reads reader args s) (elapsed : String) :
    run reader elapsed args = .ok ((analyze defaultImplicit s).report.printed elapsed) := by
  obtain ⟨t, hopens, rfl⟩ := h.exists_opens
  rw [run_of_opens hopens, listing_eq_printed]

end CommandLine

open CommandLine (Console Reads run)

/-- **The command and the report tell the same story.** What the command prints for a file, and how
it exits, is told by the report of the text in it. Each row of the report is printed on one line, so
texts whose listings agree have the same rows of diagnostics, and symbols of the same names and
types. The counts of a report count its rows of tokens by category, and their total leaves out the
end token of a scan, as the command does. -/
theorem command_tells_report :
    (∀ reader args s elapsed, Reads reader args s →
      run reader elapsed args = .ok ((analyze defaultImplicit s).report.printed elapsed)) ∧
    (∀ s, (∀ r ∈ (analyze defaultImplicit s).report.errors, OneLine r.message ∧ OneLine r.printed) ∧
      ∀ r ∈ (analyze defaultImplicit s).report.symbols, OneLine r.printed) ∧
    (∀ reader reader' args args' s s' elapsed elapsed',
      Reads reader args s → Reads reader' args' s' →
      (run reader elapsed args).map Console.stdout =
        (run reader' elapsed' args').map Console.stdout →
        (analyze defaultImplicit s).report.errors = (analyze defaultImplicit s').report.errors ∧
        ((analyze defaultImplicit s).report.symbols.map fun r => (r.name, r.type)) =
          (analyze defaultImplicit s').report.symbols.map fun r => (r.name, r.type)) ∧
    (∀ tokens,
      let counts := TokenCounts.ofTokens tokens
      let countOf category :=
        (tokens.map TokenRow.ofToken).countP fun r => r.category == category
      counts.reserved = countOf "reserved" ∧ counts.identifier = countOf "identifier" ∧
        counts.number = countOf "number" ∧ counts.symbol = countOf "symbol" ∧
        counts.error = countOf "error" ∧
        counts.total = counts.reserved + counts.identifier + counts.number + counts.symbol +
          counts.error) ∧
    ∀ s, ((TokenCounts.ofTokens (scan s)).total : Int) = (scan s).length - 1 := by
  refine ⟨?_, ?_, ?_, ?_, total_scan⟩
  · intro reader args s elapsed hreads
    exact CommandLine.run_of_reads hreads elapsed
  · intro s
    refine ⟨?_, ?_⟩
    · intro r hr
      obtain ⟨d, hd, rfl⟩ := List.mem_map.mp hr
      rw [printed_ofDiagnostic]
      exact ⟨oneLine_message hd, CommandLine.oneLine_diagnosticLine (oneLine_message hd)⟩
    · intro r hr
      obtain ⟨t, ht, rfl⟩ := List.mem_map.mp hr
      exact CommandLine.oneLine_symbolLine (of_mem_symbols ht)
  · intro reader reader' args args' s s' elapsed elapsed' hreads hreads' hstdout
    rw [CommandLine.run_of_reads hreads, CommandLine.run_of_reads hreads',
      ← CommandLine.listing_eq_printed, ← CommandLine.listing_eq_printed] at hstdout
    exact CommandLine.report_of_stdout_eq (Except.ok.inj hstdout)
  · intro tokens counts countOf
    have hrows := TokenCounts.ofTokens_rows tokens
    exact ⟨congrArg TokenCounts.reserved hrows, congrArg TokenCounts.identifier hrows,
      congrArg TokenCounts.number hrows, congrArg TokenCounts.symbol hrows,
      congrArg TokenCounts.error hrows, total_eq_sum tokens⟩

/-- A text that declares one of the two names that it uses. -/
def tightText : String := "int a=1;b=a;"

/-- The same text with a blank in it. -/
def looseText : String := "int a=1;b=a ;"

/-- A reader that finds the two texts, one below the root and one above the working directory. -/
def listedFiles : CommandLine.Reader := fun p =>
  if p = ⟨.top, ["srv", "tight.txt"]⟩ then .ok tightText.toUTF8
  else if p = ⟨.here, ["..", "loose.txt"]⟩ then .ok looseText.toUTF8
  else .error ⟨2, "No such file or directory", true⟩

/-- The listings of the two texts agree, and so do the rows of their diagnostics. -/
theorem command_tells_report_tightText :
    Reads listedFiles ["/srv/tight.txt"] tightText ∧ Reads listedFiles ["../loose.txt"] looseText ∧
      (run listedFiles "0.10" ["/srv/tight.txt"]).map Console.stdout =
        (run listedFiles "0.10" ["../loose.txt"]).map Console.stdout ∧
      (analyze defaultImplicit tightText).report.errors =
        (analyze defaultImplicit looseText).report.errors := by
  have hdecode : ∀ t : String, Text.lineFeeds t.toList = t.toList →
      CommandLine.decode t.toUTF8 = .ok t := by
    intro t ht
    rw [CommandLine.decode, Text.fromUTF8?_toUTF8]
    exact congrArg Except.ok (by rw [ht, String.ofList_toList])
  have htight : Reads listedFiles ["/srv/tight.txt"] tightText :=
    ⟨⟨.top, ["srv", "tight.txt"]⟩, tightText.toUTF8, rfl, rfl, hdecode tightText (by decide)⟩
  have hloose : Reads listedFiles ["../loose.txt"] looseText :=
    ⟨⟨.here, ["..", "loose.txt"]⟩, looseText.toUTF8, rfl, rfl, hdecode looseText (by decide)⟩
  obtain ⟨hruns, -, htells, -⟩ := command_tells_report
  have hstdout : (run listedFiles "0.10" ["/srv/tight.txt"]).map Console.stdout =
      (run listedFiles "0.10" ["../loose.txt"]).map Console.stdout := by
    rw [hruns _ _ _ "0.10" htight, hruns _ _ _ "0.10" hloose]
    exact congrArg Except.ok (by decide +kernel)
  exact ⟨htight, hloose, hstdout, (htells _ _ _ _ _ _ "0.10" "0.10" htight hloose hstdout).1⟩

end DoWhile
