import DoWhile.Proofs.Analysis.Counting
import DoWhile.Proofs.Analysis.Occurrences
import DoWhile.Proofs.Checker.Relabeling
import DoWhile.Proofs.Parse.Relabeling
import DoWhile.Report
import Mathlib.Data.List.Forall2
import Mathlib.Logic.Function.Basic

/-!
# Layout independence

Texts that are scanned to the same lexemes differ in the places of their tokens only. The places of
one scan are all different, so the other scan is that one moved (`exists_moving`), and what is made
of it is moved alongside: the analyses of both texts agree in everything but places, and where a
diagnostic of the one stands at a token, the diagnostic of the other stands at the token with the
same number (`analyze_alike`).
-/

set_option autoImplicit false

namespace DoWhile

/-- Token lists with the same lexemes, the first of them with all places different, are one and the
same list, moved. -/
theorem exists_moving {ts us : List Token}
    (hlexemes : ts.map (·.toLexeme) = us.map (·.toLexeme))
    (hapart : ts.Pairwise fun t u => t.position.Before u.position) :
    ∃ place, us = ts.map (Token.relabel (.moving place)) := by
  induction ts generalizing us with
  | nil =>
      rw [List.map_nil, eq_comm, List.map_eq_nil_iff] at hlexemes
      exact ⟨id, hlexemes⟩
  | cons t ts ih =>
      cases us with
      | nil => simp at hlexemes
      | cons u us =>
          rw [List.map_cons, List.map_cons, List.cons.injEq] at hlexemes
          obtain ⟨hfirst, hrest⟩ := List.pairwise_cons.mp hapart
          obtain ⟨place, hplace⟩ := ih hlexemes.2 hrest
          refine ⟨Function.update place t.position u.position, ?_⟩
          rw [List.map_cons, List.cons.injEq]
          constructor
          · rw [Token.relabel_moving, Function.update_self, hlexemes.1]
          · rw [hplace]
            apply List.map_congr_left
            intro x hx
            have hne : x.position ≠ t.position := (hfirst x hx).ne.symm
            rw [Token.relabel_moving, Token.relabel_moving, Function.update_of_ne hne]

/-- The diagnostics have the same wording and stand at tokens with the same number. -/
structure Diagnostic.Corresponds (ts us : List Token) (d e : Diagnostic) : Prop where
  message : d.message = e.message
  token : ∃ (i : Nat) (t u : Token), ts[i]? = some t ∧ us[i]? = some u ∧
    d.position = t.position ∧ e.position = u.position

/-- The analyses differ in places only. -/
structure Analysis.Alike (a b : Analysis) : Prop where
  program : a.program.toTree.same b.program.toTree = true
  syntaxErrors : List.Forall₂ (Diagnostic.Corresponds a.tokens b.tokens) a.syntaxErrors
    b.syntaxErrors
  symbols : a.symbols.symbols = b.symbols.symbols
  namingErrors : List.Forall₂ (Diagnostic.Corresponds a.tokens b.tokens) a.namingErrors
    b.namingErrors
  counts : a.report.counts = b.report.counts

/-- Diagnostics that stand at tokens correspond to what they are when everything is moved. -/
theorem corresponds_moved {ts us : List Token} {place : Position → Position}
    (hus : us = ts.map (Token.relabel (.moving place))) {ds : List Diagnostic}
    (hds : ∀ d ∈ ds, ∃ t ∈ ts, d.position = t.position) :
    List.Forall₂ (Diagnostic.Corresponds ts us) ds
      (ds.map (Diagnostic.relabel (.moving place))) := by
  rw [List.forall₂_map_right_iff, List.forall₂_same]
  intro d hd
  obtain ⟨t, ht, hposition⟩ := hds d hd
  obtain ⟨i, hi⟩ := List.mem_iff_getElem?.mp ht
  refine ⟨(d.message_relabel place).symm, i, t, t.relabel (.moving place), hi, ?_, hposition, ?_⟩
  · rw [hus, List.getElem?_map, hi, Option.map_some]
  · show place d.position = place t.position
    rw [hposition]

/-- A diagnostic of a name stands at a token of the source. -/
theorem exists_token_of_mem_namingErrors {implicit : List String} {source : String}
    {d : Diagnostic} (hd : d ∈ (analyze implicit source).namingErrors) :
    ∃ t ∈ scan source, d.position = t.position := by
  rw [namingErrors_eq] at hd
  rcases List.mem_append.mp hd with hd | hd
  · obtain ⟨n, -, hagain⟩ := of_mem_repeatedErrors implicit hd
    obtain ⟨q, hstands⟩ := hagain.stands
    exact ⟨_, hstands.subset List.mem_cons_self, rfl⟩
  · obtain ⟨n, -, hunknown⟩ := of_mem_unknownErrors hd
    exact ⟨_, hunknown.stands, rfl⟩

/-- Relabeling leaves the counts alone: it changes no kind of a token. -/
theorem counts_map_relabel (r : Relabeling) (ts : List Token) :
    TokenCounts.ofTokens (ts.map (Token.relabel r)) = TokenCounts.ofTokens ts := by
  simp [TokenCounts.ofTokens_eq, List.countP_map, Function.comp_def]

/-- Moving symbols, which stand nowhere, leaves them as they are. -/
theorem Symbol.relabel_moving (place : Position → Position) (ss : List Symbol) :
    ss.map (Symbol.relabel (.moving place)) = ss := by
  have hsame : Symbol.relabel (.moving place) = id := rfl
  rw [hsame, List.map_id]

/-- **Layout independence.** Texts that are scanned to the same lexemes are analysed alike, with or
without errors: the programs are the same, the diagnostics of the grammar and those of the names
correspond one by one in wording and in the tokens where they stand, and the symbol tables and the
token counts are equal. -/
theorem analyze_alike (implicit : List String) {s₁ s₂ : String}
    (hlexemes : (scan s₁).map (·.toLexeme) = (scan s₂).map (·.toLexeme)) :
    (analyze implicit s₁).Alike (analyze implicit s₂) := by
  obtain ⟨place, hmoved⟩ := exists_moving hlexemes (scan_pairwise_before s₁)
  obtain ⟨hprogram, herrors⟩ := parse_relabel (closed_scan s₁)
    fun t (_ : t ∈ scan s₁) => t.steady_moving place
  rw [← hmoved] at hprogram herrors
  obtain ⟨hsymbols, hnaming⟩ := Checker.check_relabel (r := .moving place)
    Function.injective_id implicit (parse (scan s₁)).program
  have himplicit : implicit.map (Relabeling.moving place).name = implicit := List.map_id implicit
  rw [himplicit, ← hprogram] at hsymbols hnaming
  constructor
  · show (parse (scan s₁)).program.toTree.same (parse (scan s₂)).program.toTree = true
    rw [hprogram]
    exact Program.same_relabel place (parse (scan s₁)).program
  · show List.Forall₂ (Diagnostic.Corresponds (scan s₁) (scan s₂)) (parse (scan s₁)).errors
      (parse (scan s₂)).errors
    rw [herrors]
    apply corresponds_moved hmoved
    intro d hd
    have hplace := exists_token_of_mem_errors hd
    rwa [closed_scan] at hplace
  · rw [Symbol.relabel_moving] at hsymbols
    exact hsymbols.symm
  · show List.Forall₂ (Diagnostic.Corresponds (scan s₁) (scan s₂))
      (analyze implicit s₁).namingErrors ((parse (scan s₂)).program.check implicit).checker.errors
    rw [hnaming]
    exact corresponds_moved hmoved fun d hd => exists_token_of_mem_namingErrors hd
  · show TokenCounts.ofTokens (scan s₁) = TokenCounts.ofTokens (scan s₂)
    rw [hmoved, counts_map_relabel]

/-- A text that uses an unknown name and whose last assignment lacks its value. -/
def crampedText : String := "int a=b;a=;"

/-- The same text in another layout. -/
def spaciousText : String := "int a = b ;\n\n  a =\n;\n"

/-- Two layouts of one row of lexemes, with errors of both groups, are analysed alike. -/
theorem analyze_alike_cramped :
    (scan crampedText).map (·.toLexeme) = (scan spaciousText).map (·.toLexeme) ∧
      (analyze ["x"] crampedText).Alike (analyze ["x"] spaciousText) := by
  have hlexemes : (scan crampedText).map (·.toLexeme) = (scan spaciousText).map (·.toLexeme) := by
    decide +kernel
  exact ⟨hlexemes, analyze_alike ["x"] hlexemes⟩

end DoWhile
