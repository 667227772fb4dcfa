import DoWhile.Proofs.Analysis.Occurrences
import DoWhile.Proofs.Analysis.Quiet
import DoWhile.Proofs.Checker.Relabeling
import DoWhile.Proofs.Parse.EndToken
import Mathlib.Logic.Equiv.Basic

/-!
# Renaming

A renaming gives identifiers other identifiers for their names. It is a relabeling that leaves alone
whatever is no identifier (`Relabeling.respelling`), so no name becomes a word by which the parser
finds its way, or ceases to be one (`Token.steady_respelling`), and different names stay different
(`Relabeling.injective_respelling`). Tokens with other names are therefore analysed alike: only the
names are others (`analysedAlike_of_injective`).
-/

set_option autoImplicit false

namespace DoWhile

/-! ## Identifiers -/

/-- A word that is not reserved. -/
@[ext]
structure Identifier where
  text : String
  spelled : Token.Kind.identifier.admits text = true
  deriving DecidableEq

/-- The relabeling that gives identifiers their new names and keeps all places. -/
def Relabeling.respelling (ρ : Identifier → Identifier) : Relabeling where
  name w := if h : Token.Kind.identifier.admits w = true then (ρ ⟨w, h⟩).text else w
  place := id

variable (ρ : Identifier → Identifier)

/-- An identifier is given its new name. -/
theorem Relabeling.name_respelling (i : Identifier) : (respelling ρ).name i.text = (ρ i).text :=
  dif_pos i.spelled

/-- A text that is no identifier keeps its spelling. -/
theorem Relabeling.name_respelling_of_not {w : String}
    (h : ¬ Token.Kind.identifier.admits w = true) : (respelling ρ).name w = w :=
  dif_neg h

/-- An identifier is taken to an identifier, and any other text stays what it is. -/
theorem Relabeling.admits_respelling (w : String) :
    Token.Kind.identifier.admits ((respelling ρ).name w) = Token.Kind.identifier.admits w := by
  by_cases h : Token.Kind.identifier.admits w = true
  · have hname : (respelling ρ).name w = (ρ ⟨w, h⟩).text := name_respelling ρ ⟨w, h⟩
    rw [hname, (ρ ⟨w, h⟩).spelled, h]
  · rw [name_respelling_of_not ρ h]

/-- A renaming that takes different identifiers to different ones keeps all texts apart. -/
theorem Relabeling.injective_respelling {ρ : Identifier → Identifier}
    (hρ : Function.Injective ρ) : Function.Injective (respelling ρ).name := by
  intro v w heq
  have hadmits : Token.Kind.identifier.admits v = Token.Kind.identifier.admits w := by
    rw [← admits_respelling ρ v, heq, admits_respelling]
  by_cases hv : Token.Kind.identifier.admits v = true
  · have hw : Token.Kind.identifier.admits w = true := by rw [← hadmits, hv]
    have hnames : ρ ⟨v, hv⟩ = ρ ⟨w, hw⟩ := by
      rw [Identifier.ext_iff, ← name_respelling, ← name_respelling, heq]
    exact congrArg Identifier.text (hρ hnames)
  · have hw : ¬ Token.Kind.identifier.admits w = true := by rw [← hadmits]; exact hv
    rw [name_respelling_of_not ρ hv, name_respelling_of_not ρ hw] at heq
    exact heq

/-- No identifier is a word by which reading is guided, and none becomes one. -/
theorem Token.steady_respelling {t : Token} (ht : t.kind.admits t.literal = true) :
    t.Steady (.respelling ρ) := by
  intro hkind w hw
  rw [hkind] at ht
  have hguide : ∀ w ∈ guideWords, ¬ Token.Kind.identifier.admits w = true := by decide
  have hname : Token.Kind.identifier.admits ((Relabeling.respelling ρ).name t.literal) = true := by
    rw [Relabeling.admits_respelling, ht]
  constructor
  · rintro rfl
    exact absurd hname (hguide _ hw)
  · rintro rfl
    exact absurd ht (hguide _ hw)

/-! ## The names of a program are identifiers -/

/-- The used names of a regular token list are identifiers. -/
theorem exists_identifier_of_mem_uses {ts : List Token} (hts : Regular ts) {u : Used}
    (hu : u ∈ (parse ts).program.uses) : ∃ i : Identifier, i.text = u.name := by
  have hstands := (parse_uses_sublist ts).subset (List.mem_map_of_mem hu)
  have hproper := hts.isProper_dropLast_closed _ hstands
  exact ⟨⟨u.name, Lexeme.admits_of_isProper hproper⟩, rfl⟩

/-- The declared names of a regular token list are identifiers. -/
theorem exists_identifier_of_mem_declarations {ts : List Token} (hts : Regular ts) {d : Declared}
    (hd : d ∈ (parse ts).program.declarations) : ∃ i : Identifier, i.text = d.name := by
  obtain ⟨q, hstands⟩ := parse_declarations_standIn hts.isProper_dropLast_closed d hd
  have hmem := hstands.subset (List.mem_cons_of_mem _ List.mem_cons_self)
  have hproper := hts.isProper_dropLast_closed _ hmem
  exact ⟨⟨d.name, Lexeme.admits_of_isProper hproper⟩, rfl⟩

/-! ## The diagnostics of names -/

/-- The two diagnostics say the same, at the same place, of an identifier and of its new name. -/
inductive Diagnostic.Renamed : Diagnostic → Diagnostic → Prop
  | again (i : Identifier) (p : Position) : Renamed ⟨.naming, .alreadyDeclared i.text, p⟩
      ⟨.naming, .alreadyDeclared (ρ i).text, p⟩
  | unresolved (i : Identifier) (p : Position) : Renamed ⟨.naming, .usedBeforeDeclared i.text, p⟩
      ⟨.naming, .usedBeforeDeclared (ρ i).text, p⟩

/-- A diagnostic of the check of parsed tokens is about an identifier. -/
theorem renamed_relabel {ts : List Token} (hts : Regular ts) (implicit : List String)
    {d : Diagnostic} (hd : d ∈ ((parse ts).program.check implicit).checker.errors) :
    Diagnostic.Renamed ρ d (d.relabel (.respelling ρ)) := by
  rw [(Checker.check_outcome implicit _).2.2, List.mem_append] at hd
  rcases hd with hd | hd
  · obtain ⟨e, he, rfl⟩ := List.mem_map.mp hd
    obtain ⟨i, hi⟩ :=
      exists_identifier_of_mem_declarations hts ((repeats_sublist [] _).subset he)
    rw [Declared.again, ← hi, Diagnostic.relabel, Complaint.relabel, Relabeling.name_respelling]
    exact .again i e.position
  · obtain ⟨u, hu, rfl⟩ := List.mem_map.mp hd
    obtain ⟨i, hi⟩ := exists_identifier_of_mem_uses hts (List.mem_of_mem_filter hu)
    rw [Used.unresolved, ← hi, Diagnostic.relabel, Complaint.relabel, Relabeling.name_respelling]
    exact .unresolved i u.position

/-! ## The analysis of renamed tokens -/

/-- Are the tokens analysed to the same, up to names, when their identifiers are renamed, and the
implicit names with them? -/
structure AnalysedAlike (implicit : List Identifier) (ts : List Token) : Prop where
  program : (parse (ts.map (Token.relabel (.respelling ρ)))).program =
    (parse ts).program.relabel (.respelling ρ)
  syntaxErrors : (parse (ts.map (Token.relabel (.respelling ρ)))).errors.map (·.position) =
    (parse ts).errors.map (·.position)
  symbols : ((parse (ts.map (Token.relabel (.respelling ρ)))).program.check
      (implicit.map fun i => (ρ i).text)).checker.table.symbols =
    ((parse ts).program.check (implicit.map (·.text))).checker.table.symbols.map
      (Symbol.relabel (.respelling ρ))
  namingErrors : List.Forall₂ (Diagnostic.Renamed ρ)
    ((parse ts).program.check (implicit.map (·.text))).checker.errors
    ((parse (ts.map (Token.relabel (.respelling ρ)))).program.check
      (implicit.map fun i => (ρ i).text)).checker.errors

variable {ρ}

/-- **The analysis does not depend on the choice of names.** If a renaming keeps identifiers apart,
then tokens with their identifiers renamed are parsed to the renamed program, with as many
diagnostics at the same places, and the check with the implicit names renamed fills the table with
the renamed symbols and raises the diagnostics of the renamed names at the same places. -/
theorem analysedAlike_of_injective (hρ : Function.Injective ρ) {ts : List Token} (hts : Regular ts)
    (hend : ts.getLast?.any Token.isEnd = true) (implicit : List Identifier) :
    AnalysedAlike ρ implicit ts := by
  have hclosed : closed ts = ts := by
    cases hlast : ts.getLast? with
    | none => simp [hlast] at hend
    | some e =>
        rw [hlast, Option.any_some] at hend
        obtain ⟨front, rfl⟩ := List.getLast?_eq_some_iff.mp hlast
        exact closed_of_isEnd front hend
  obtain ⟨hprogram, herrors⟩ :=
    parse_relabel hclosed fun t ht => Token.steady_respelling ρ (hts.admitted t ht)
  have himplicit : (implicit.map (·.text)).map (Relabeling.respelling ρ).name =
      implicit.map fun i => (ρ i).text := by
    rw [List.map_map]
    exact List.map_congr_left fun i _ => Relabeling.name_respelling ρ i
  obtain ⟨hsymbols, hnaming⟩ := Checker.check_relabel (Relabeling.injective_respelling hρ)
    (implicit.map (·.text)) (parse ts).program
  rw [himplicit, ← hprogram] at hsymbols hnaming
  refine ⟨hprogram, ?_, hsymbols, ?_⟩
  · rw [herrors, List.map_map]
    rfl
  · rw [hnaming, List.forall₂_map_right_iff, List.forall₂_same]
    exact fun d hd => renamed_relabel ρ hts _ hd

/-- A text that declares a name twice, uses an unknown one and has errors of the grammar. -/
def crossedText : String := "int a = b; int a = x; do \x7b a = 1; c \x7d while (a == b); a = ;"

/-- The renaming that swaps a name of this text with one that a reserved word begins. -/
def crossing : Identifier → Identifier :=
  Equiv.swap ⟨"a", by decide⟩ ⟨"done", by decide⟩

/-- Exchanging two names of a text, one of them implicit, exchanges them in its whole analysis. -/
theorem analysedAlike_crossedText :
    Function.Injective crossing ∧ Regular (scan crossedText) ∧
      (scan crossedText).getLast?.any Token.isEnd = true ∧
      AnalysedAlike crossing [⟨"x", by decide⟩] (scan crossedText) := by
  have hinjective : Function.Injective crossing := Equiv.injective _
  have hregular := regular_scan crossedText
  have hend : (scan crossedText).getLast?.any Token.isEnd = true := by decide +kernel
  exact ⟨hinjective, hregular, hend, analysedAlike_of_injective hinjective hregular hend _⟩

end DoWhile
