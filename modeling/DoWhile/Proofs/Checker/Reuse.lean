import DoWhile.Checker.Session
import DoWhile.Proofs.Checker.Exact
import Mathlib.Data.List.Basic
import Mathlib.Data.List.Perm.Basic

/-!
# Using one checker again

A checker only ever adds: each step of a pass keeps the entries of the table and the diagnostics
that are there (`Step.keeps_run`), and so does every call, also one that a fault ends
(`keeps_run`). Two programs that are checked one after the other leave the table of their
concatenation (`table_checkBoth`). The diagnostics are those of the concatenation too, except that
the first program could not see the declarations of the second one (`errors_checkBoth_perm`).
-/

set_option autoImplicit false

namespace DoWhile

/-! ## What a call keeps -/

namespace Checker

/-- Are the entries of the table and the diagnostics of `c` still in `c'`, as they were and in
front of all others? -/
structure Keeps (c c' : Checker) : Prop where
  implicit : c'.implicit = c.implicit
  entries : c.table.current <+: c'.table.current
  replaced : c'.table.replaced = c.table.replaced
  errors : c.errors <+: c'.errors

/-- A checker keeps what it has. -/
theorem Keeps.refl (c : Checker) : c.Keeps c :=
  ⟨rfl, List.prefix_rfl, rfl, List.prefix_rfl⟩

/-- What is kept twice in turn is kept. -/
theorem Keeps.trans {a b c : Checker} (hab : a.Keeps b) (hbc : b.Keeps c) : a.Keeps c :=
  ⟨hbc.implicit.trans hab.implicit, hab.entries.trans hbc.entries,
    hbc.replaced.trans hab.replaced, hab.errors.trans hbc.errors⟩

/-- A complaint keeps what was there. -/
theorem keeps_complain (c : Checker) (complaint : Complaint) (p : Position) :
    c.Keeps (c.complain complaint p) :=
  ⟨rfl, List.prefix_rfl, rfl, List.prefix_append _ _⟩

/-- Noting the sizes keeps what was there. -/
theorem keeps_conclude (c : Checker) : c.Keeps c.conclude :=
  ⟨rfl, List.prefix_rfl, rfl, List.prefix_rfl⟩

/-- A declaration keeps what was there. -/
theorem keeps_declare (c : Checker) (typeName name : String) (p : Position) :
    c.Keeps (c.declare typeName name p) := by
  rw [declare]
  by_cases h : c.table.contains name = true
  · rw [if_pos h]
    exact c.keeps_complain _ p
  · have hnew : name ∉ c.table.names := mt (SymbolTable.contains_iff _ _).mpr h
    rw [if_neg h, SymbolTable.define_of_new hnew]
    exact ⟨rfl, List.prefix_append _ _, rfl, List.prefix_rfl⟩

/-- Looking at a use keeps what was there. -/
theorem keeps_verifyName (c : Checker) (name : String) (p : Position) :
    c.Keeps (c.verifyName name p) := by
  rw [verifyName]
  split
  · exact Keeps.refl c
  · exact c.keeps_complain _ p

/-- One step of a pass keeps what was there. -/
theorem Step.keeps_run (s : Step) (c : Checker) : c.Keeps (s.run c).checker := by
  cases s with
  | declare typeName name p => exact c.keeps_declare typeName name p
  | use name p => exact c.keeps_verifyName name p
  | stop fault => exact Keeps.refl c

/-- Work behind other work keeps what was there if both do. -/
theorem keeps_andThen {c : Checker} {p : Progress} {work : Checker → Progress}
    (hp : c.Keeps p.checker) (hwork : ∀ c : Checker, c.Keeps (work c).checker) :
    c.Keeps (p.andThen work).checker := by
  obtain ⟨c', fault⟩ := p
  cases fault with
  | none => exact hp.trans (hwork c')
  | some fault => exact hp

/-- A run of steps keeps what was there, wherever it stops. -/
theorem Step.keeps_runAll (ss : List Step) (c : Checker) : c.Keeps (runAll ss c).checker := by
  induction ss generalizing c with
  | nil => exact Keeps.refl c
  | cons s ss ih => exact keeps_andThen (s.keeps_run c) ih

/-- Collecting declarations keeps what was there. -/
theorem keeps_collect (t : Tree) (c : Checker) : c.Keeps (collect t c).checker := by
  rw [collect_eq_run]
  exact Step.keeps_runAll _ c

/-- Verifying uses keeps what was there. -/
theorem keeps_verify (t : Tree) (c : Checker) : c.Keeps (verify t c).checker := by
  rw [verify_eq_run]
  exact Step.keeps_runAll _ c

/-- Verifying an expression keeps what was there. -/
theorem keeps_verifyExpr (t : Tree) (c : Checker) : c.Keeps (verifyExpr t c).checker := by
  rw [verifyExpr_eq_run]
  exact Step.keeps_runAll _ c

/-- A check keeps what was there, whatever it is given. -/
theorem keeps_check (c : Checker) (t : Tree) : c.Keeps (c.check t).checker := by
  cases t with
  | program statements =>
      exact keeps_andThen (keeps_andThen (keeps_collect statements c) (keeps_verify statements))
        keeps_conclude
  | _ => exact Keeps.refl c

/-- A call keeps what is there, whether or not a fault ends it. -/
theorem keeps_run (c : Checker) (call : Call) : c.Keeps (c.run call).checker := by
  cases call with
  | check program => exact c.keeps_check program
  | checkSource source => exact c.keeps_check _
  | collect statements => exact keeps_collect statements c
  | verify statements => exact keeps_verify statements c
  | verifyExpr expression => exact keeps_verifyExpr expression c
  | verifyName name p => exact c.keeps_verifyName name p

/-- Among the states of a checker before and after the calls of a sequence, each earlier one is
kept by each later one. -/
theorem pairwise_keeps_runAll (c : Checker) (calls : List Call) :
    (c :: (c.runAll calls).map (·.checker)).Pairwise Keeps := by
  induction calls generalizing c with
  | nil => exact List.pairwise_singleton Keeps c
  | cons call calls ih =>
      have hrest := ih (c.run call).checker
      have hfirst := c.keeps_run call
      rw [runAll, List.map_cons, List.pairwise_cons]
      refine ⟨?_, hrest⟩
      intro c' hc'
      rcases List.mem_cons.mp hc' with rfl | hc'
      · exact hfirst
      · exact hfirst.trans ((List.pairwise_cons.mp hrest).1 c' hc')

end Checker

/-! ## Two programs -/

/-- Programs one behind the other. -/
instance : Append Program := ⟨fun p q => ⟨p.statements ++ q.statements⟩⟩

namespace Program

/-- A program behind another one declares behind what that one declares. -/
theorem declarations_append (p q : Program) :
    (p ++ q).declarations = p.declarations ++ q.declarations := by
  have hstatements : (p ++ q).statements = p.statements ++ q.statements := rfl
  unfold declarations
  rw [hstatements, Stmt.declarationsAll_eq_flatMap, Stmt.declarationsAll_eq_flatMap,
    Stmt.declarationsAll_eq_flatMap, List.flatMap_append]

/-- A program behind another one uses behind what that one uses. -/
theorem uses_append (p q : Program) : (p ++ q).uses = p.uses ++ q.uses := by
  have hstatements : (p ++ q).statements = p.statements ++ q.statements := rfl
  unfold uses
  rw [hstatements, Stmt.usesAll_eq_flatMap, Stmt.usesAll_eq_flatMap, Stmt.usesAll_eq_flatMap,
    List.flatMap_append]

/-- The names declared by two programs are those of the first and then those of the second. -/
theorem declaredNames_append (p q : Program) :
    (p ++ q).declaredNames = p.declaredNames ++ q.declaredNames := by
  unfold declaredNames
  rw [declarations_append, List.map_append]

end Program

/-- Uses that one list of names leaves unknown are unknown with more names too, or found among
these. -/
theorem filter_unknown_perm (implicit names more : List String) (us : List Used) :
    (us.filter fun u => ¬ u.Known implicit names).Perm
      ((us.filter fun u => ¬ u.Known implicit (names ++ more)) ++
        us.filter fun u => u.name ∉ implicit ∧ u.name ∈ more ∧ u.name ∉ names) := by
  have hunknown : (us.filter fun u => ¬ u.Known implicit (names ++ more)) =
      (us.filter fun u => ¬ u.Known implicit names).filter fun u => !decide (u.name ∈ more) := by
    rw [List.filter_filter]
    refine List.filter_congr fun (u : Used) _ => ?_
    rw [Bool.eq_iff_iff]
    simp only [Used.Known, List.mem_append, Bool.and_eq_true, Bool.not_eq_true', decide_eq_true_eq,
      decide_eq_false_iff_not, not_or]
    tauto
  have hfound : (us.filter fun u => u.name ∉ implicit ∧ u.name ∈ more ∧ u.name ∉ names) =
      (us.filter fun u => ¬ u.Known implicit names).filter fun u => decide (u.name ∈ more) := by
    rw [List.filter_filter]
    refine List.filter_congr fun (u : Used) _ => ?_
    rw [Bool.eq_iff_iff]
    simp only [Used.Known, Bool.and_eq_true, decide_eq_true_eq, not_or]
    tauto
  rw [hunknown, hfound]
  exact ((List.filter_append_perm _ _).symm).trans List.perm_append_comm

namespace Checker

/-- Checks one program with a new checker, and then another one with the same checker. -/
def checkBoth (implicit : List String) (p q : Program) : Progress :=
  (p.check implicit).checker.check q.toTree

/-- The tables of two checks in a row and of one check of all statements are the same. -/
theorem table_checkBoth (implicit : List String) (p q : Program) :
    (checkBoth implicit p q).checker.table = ((p ++ q).check implicit).checker.table := by
  have hboth : (checkBoth implicit p q).checker.table =
      (p.check implicit).checker.table.enterAll q.declarations := by
    rw [checkBoth, check_toTree]
    rfl
  rw [hboth, table_check, table_check, Program.declarations_append]
  exact (List.foldl_append ..).symm

/-- The second check adds a diagnostic for each declaration of a name that is known by then, and
then one for each use of a name that neither program declares. -/
theorem errors_checkBoth (implicit : List String) (p q : Program) :
    (checkBoth implicit p q).checker.errors =
      (p.check implicit).checker.errors ++
        (repeats p.declaredNames q.declarations).map Declared.again ++
        (q.uses.filter fun u => ¬ u.Known implicit (p.declaredNames ++ q.declaredNames)).map
          Used.unresolved := by
  have himplicit : (p.check implicit).checker.implicit = implicit :=
    (keeps_check (new implicit) _).implicit
  have hnames : ∀ n, n ∈ (checkBoth implicit p q).checker.table.names ↔
      n ∈ p.declaredNames ++ q.declaredNames := by
    intro n
    rw [table_checkBoth, mem_names_check, Program.declaredNames_append]
  have hboth : (checkBoth implicit p q).checker.errors =
      (p.check implicit).checker.errors ++
        (repeats (p.check implicit).checker.table.names q.declarations).map Declared.again ++
        (q.uses.filter fun u => ¬ u.Known (p.check implicit).checker.implicit
          (checkBoth implicit p q).checker.table.names).map Used.unresolved := by
    rw [checkBoth, check_toTree]
    rfl
  rw [hboth, himplicit, repeats_congr (mem_names_check implicit p), filter_unknown_congr hnames]

/-- Up to their order, the diagnostics of two checks in a row are those of one check of all
statements, and one for each use in the first program of a name that only the second one
declares. -/
theorem errors_checkBoth_perm (implicit : List String) (p q : Program) :
    (checkBoth implicit p q).checker.errors.Perm
      (((p ++ q).check implicit).checker.errors ++
        (p.uses.filter fun u =>
          u.name ∉ implicit ∧ u.name ∈ q.declaredNames ∧ u.name ∉ p.declaredNames).map
          Used.unresolved) := by
  have hfirst := (filter_unknown_perm implicit p.declaredNames q.declaredNames p.uses).map
    Used.unresolved
  rw [List.map_append] at hfirst
  rw [errors_checkBoth, (check_outcome implicit p).2.2, (check_outcome implicit (p ++ q)).2.2,
    Program.declarations_append, Program.uses_append, Program.declaredNames_append, repeats_append,
    List.nil_append, List.filter_append, List.map_append, List.map_append, List.perm_iff_count]
  -- for each single diagnostic, both sides count the same parts
  intro d
  have hcount := hfirst.count_eq d
  simp only [List.count_append] at hcount ⊢
  rw [Program.declaredNames] at hcount ⊢
  omega

/-- Checking a program again adds a diagnostic for each of its declarations, and then those of the
unknown uses once more. -/
theorem errors_checkAgain (implicit : List String) (p : Program) :
    (checkBoth implicit p p).checker.errors =
      (p.check implicit).checker.errors ++ p.declarations.map Declared.again ++
        (p.check implicit).checker.errors.filter Diagnostic.isUnresolved := by
  have hrepeats : repeats p.declaredNames p.declarations = p.declarations :=
    repeats_eq_self fun d hd => List.mem_map_of_mem hd
  have hnames : ∀ n, n ∈ p.declaredNames ++ p.declaredNames ↔ n ∈ p.declaredNames := by
    intro n
    rw [List.mem_append, or_self]
  rw [errors_checkBoth, hrepeats, filter_unknown_congr hnames, unresolved_check]

/-- **What accumulates in a checker.** Over any sequence of calls, also such that faults end, the
entries of the table stay as they are and where they are, and so do the diagnostics. Two programs
checked one after the other leave the table of their concatenation; the diagnostics are, up to their
order, those of the concatenation and one for each use in the first program of a name that is not
implicit and that only the second program declares. A program checked again adds a diagnostic for
each of its declarations, and then the diagnostics of unknown uses of the first check. -/
theorem calls_accumulate :
    (∀ (c : Checker) (calls : List Call),
      (c :: (c.runAll calls).map (·.checker)).Pairwise Keeps) ∧
    (∀ (implicit : List String) (p q : Program),
      (checkBoth implicit p q).fault = none ∧
      (checkBoth implicit p q).checker.table = ((p ++ q).check implicit).checker.table ∧
      (checkBoth implicit p q).checker.errors.Perm
        (((p ++ q).check implicit).checker.errors ++
          (p.uses.filter fun u =>
            u.name ∉ implicit ∧ u.name ∈ q.declaredNames ∧ u.name ∉ p.declaredNames).map
            fun u => ⟨.naming, .usedBeforeDeclared u.name, u.position⟩)) ∧
    ∀ (implicit : List String) (p : Program),
      (checkBoth implicit p p).checker.errors =
        (p.check implicit).checker.errors ++
          (p.declarations.map fun d => ⟨.naming, .alreadyDeclared d.name, d.position⟩) ++
          (p.check implicit).checker.errors.filter Diagnostic.isUnresolved := by
  refine ⟨pairwise_keeps_runAll, ?_, errors_checkAgain⟩
  intro implicit p q
  refine ⟨?_, table_checkBoth implicit p q, errors_checkBoth_perm implicit p q⟩
  rw [checkBoth, check_toTree]

end Checker

end DoWhile
