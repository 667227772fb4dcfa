import DoWhile.Proofs.Checker.Exact
import Mathlib.Data.List.Dedup

/-!
# The order of statements

Both passes of a check go over all statements, so their order hardly matters: statements in another
order have their declarations and their uses in another order. Which names are declared does not
change, and so neither does which uses are unknown. Which declaration of a name comes first does
change, but not how many others there are (`countP_repeats`). So a program with its statements in
another order resolves its names alike (`check_perm`).
-/

set_option autoImplicit false

namespace DoWhile

/-! ## Repetitions -/

/-- A name has one repetition less than it has declarations, unless it was declared before. -/
theorem countP_repeats (before : List String) (ds : List Declared) (n : String) :
    (repeats before ds).countP (fun d => d.name = n) =
      if n ∈ before then (ds.map (·.name)).count n else (ds.map (·.name)).count n - 1 := by
  -- `before` grows by the first declaration of the name, and from there on all of them count
  induction ds generalizing before with
  | nil => simp [repeats]
  | cons d ds ih =>
      by_cases hd : d.name ∈ before
      · rw [repeats_cons_of_mem hd, List.countP_cons, ih, List.map_cons, List.count_cons]
        by_cases hn : d.name = n
        · subst hn
          simp [hd]
        · simp [hn]
      · rw [repeats_cons_of_not_mem hd, ih, List.map_cons, List.count_cons]
        by_cases hn : d.name = n
        · subst hn
          simp [hd]
        · have hne : n ≠ d.name := Ne.symm hn
          simp [hn, hne]

/-! ## Statements in another order -/

namespace Program

variable {p q : Program}

/-- Reordering the statements reorders the declared names. -/
theorem declaredNames_perm (h : p.statements.Perm q.statements) :
    p.declaredNames.Perm q.declaredNames := by
  unfold declaredNames declarations
  rw [Stmt.declarationsAll_eq_flatMap, Stmt.declarationsAll_eq_flatMap]
  exact (h.flatMap_right _).map _

/-- Reordering the statements reorders the uses. -/
theorem uses_perm (h : p.statements.Perm q.statements) : p.uses.Perm q.uses := by
  unfold uses
  rw [Stmt.usesAll_eq_flatMap, Stmt.usesAll_eq_flatMap]
  exact h.flatMap_right _

end Program

namespace Checker

/-- The diagnostics of a check that a name is declared again are as many as its repetitions. -/
theorem countP_again_check (implicit : List String) (p : Program) (n : String) :
    (p.check implicit).checker.errors.countP
        (fun d => d.message = "Variable '" ++ n ++ "' already declared") =
      p.declaredNames.count n - 1 := by
  have hagain : ∀ d : Declared,
      d.again.message = "Variable '" ++ n ++ "' already declared" ↔ d.name = n := by
    intro d
    have hmessage : d.again.message = "Variable '" ++ d.name ++ "' already declared" := rfl
    rw [hmessage, String.append_left_inj, String.append_right_inj]
  have hunresolved : ∀ u : Used,
      u.unresolved.message ≠ "Variable '" ++ n ++ "' already declared" :=
    fun u => (alreadyDeclared_text_ne n u.name).symm
  have hcount := countP_repeats [] p.declarations n
  rw [if_neg List.not_mem_nil] at hcount
  rw [(check_outcome implicit p).2.2, List.countP_append, List.countP_map, List.countP_map,
    Program.declaredNames, ← hcount]
  simp [Function.comp_def, hagain, hunresolved]

/-- **Name resolution does not depend on the order of the statements.** Programs with the same
statements in any order declare the same names; the checks raise the same diagnostics of unknown
uses, up to their order, and for each name as many diagnostics that it is declared again, one less
than its declarations. -/
theorem check_perm (implicit : List String) {p q : Program}
    (h : p.statements.Perm q.statements) :
    (p.check implicit).checker.table.names.Perm (q.check implicit).checker.table.names ∧
      ((p.check implicit).checker.errors.filter Diagnostic.isUnresolved).Perm
        ((q.check implicit).checker.errors.filter Diagnostic.isUnresolved) ∧
      ∀ n, (p.check implicit).checker.errors.countP
            (fun d => d.message = "Variable '" ++ n ++ "' already declared") =
          p.declaredNames.count n - 1 ∧
        (q.check implicit).checker.errors.countP
            (fun d => d.message = "Variable '" ++ n ++ "' already declared") =
          p.declaredNames.count n - 1 := by
  have hnames := Program.declaredNames_perm h
  refine ⟨?_, ?_, ?_⟩
  · rw [List.perm_ext_iff_of_nodup (nodup_names_check implicit p) (nodup_names_check implicit q)]
    intro n
    rw [mem_names_check, mem_names_check]
    exact hnames.mem_iff
  · rw [unresolved_check, unresolved_check,
      filter_unknown_congr fun n => hnames.mem_iff (a := n)]
    exact ((Program.uses_perm h).filter _).map _
  · intro n
    refine ⟨countP_again_check implicit p n, ?_⟩
    rw [countP_again_check, hnames.count_eq]

/-- A loop and a use in front of two declarations of one name. -/
def lateDeclarations : Program :=
  let a : Expr := .identifier "a" ⟨3, 8⟩
  let b : Expr := .identifier "b" ⟨3, 13⟩
  ⟨[.loop [.assignment "a" (.number "1" ⟨2, 5⟩) ⟨2, 1⟩] (.binary a "==" b ⟨3, 8⟩) ⟨1, 1⟩,
    .assignment "c" b ⟨4, 1⟩, .declaration "int" "a" b ⟨5, 1⟩,
    .declaration "int" "a" (.number "2" ⟨6, 9⟩) ⟨6, 1⟩]⟩

/-- The same statements the other way round. -/
def earlyDeclarations : Program := ⟨lateDeclarations.statements.reverse⟩

/-- A program whose declarations come late is checked like the one in which they come early. -/
theorem check_perm_lateDeclarations :
    lateDeclarations.statements.Perm earlyDeclarations.statements ∧
      (lateDeclarations.check []).checker.table.names.Perm
        (earlyDeclarations.check []).checker.table.names ∧
      ((lateDeclarations.check []).checker.errors.filter Diagnostic.isUnresolved).Perm
        ((earlyDeclarations.check []).checker.errors.filter Diagnostic.isUnresolved) ∧
      (earlyDeclarations.check []).checker.errors.countP
        (fun d => d.message = "Variable '" ++ "a" ++ "' already declared") = 1 := by
  have hperm : lateDeclarations.statements.Perm earlyDeclarations.statements :=
    (List.reverse_perm _).symm
  obtain ⟨hnames, hunresolved, hagain⟩ := check_perm [] hperm
  have hcount : lateDeclarations.declaredNames.count "a" - 1 = 1 := by decide
  exact ⟨hperm, hnames, hunresolved, (hagain "a").2.trans hcount⟩

end Checker

end DoWhile
