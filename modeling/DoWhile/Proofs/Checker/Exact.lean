import DoWhile.Proofs.Checker.Steps
import DoWhile.Proofs.Program.Names
import DoWhile.Proofs.SymbolTable.Cells

/-!
# What the checker finds

On a program, the steps of the first pass are its declarations and those of the second its uses
(`collectStepsAll_toTrees`, `verifyStepsAll_toTrees`), so no step stops. Declaring names one by one
grows the table by the first declarations and raises a diagnostic for each later one
(`runAll_declare`); looking at uses one by one raises a diagnostic for each name that is neither
implicit nor in the table and leaves the table alone (`runAll_use`). So a check on any checker comes
to its end with the table of all declarations at hand before the first use is looked at
(`check_toTree`), and the outcome of a check on a new one is exact (`check_exact`).
-/

set_option autoImplicit false

namespace DoWhile

/-! ## The steps of a program -/

/-- The step that a declaration takes. -/
def Declared.step (d : Declared) : Checker.Step := .declare d.typeName d.name d.position

/-- The step that a use takes. -/
def Used.step (u : Used) : Checker.Step := .use u.name u.position

namespace Checker

/-- Verifying an expression takes a step for each of its uses. -/
theorem exprSteps_toTree (e : Expr) : exprSteps e.toTree = e.uses.map Used.step := by
  induction e with
  | identifier name p => rfl
  | number text p => rfl
  | binary left operator right p ihl ihr =>
      rw [Expr.toTree, exprSteps, ihl, ihr, Expr.uses, List.map_append]

mutual

/-- Collecting from a statement takes a step for each of its declarations. -/
theorem collectSteps_toTree (s : Stmt) :
    collectSteps s.toTree = s.declarations.map Declared.step := by
  cases s with
  | declaration typeName name value p => rfl
  | assignment target value p => rfl
  | loop body condition p => exact collectStepsAll_toTrees body

/-- The steps of the first pass are the declarations. -/
theorem collectStepsAll_toTrees (ss : List Stmt) :
    collectStepsAll (Stmt.toTrees ss) = (Stmt.declarationsAll ss).map Declared.step := by
  cases ss with
  | nil => rfl
  | cons s ss =>
      rw [Stmt.toTrees, collectStepsAll, collectSteps_toTree s, collectStepsAll_toTrees ss,
        Stmt.declarationsAll, List.map_append]

end

mutual

/-- Verifying a statement takes a step for each of its uses. -/
theorem verifySteps_toTree (s : Stmt) : verifySteps s.toTree = s.uses.map Used.step := by
  cases s with
  | declaration typeName name value p => exact exprSteps_toTree value
  | assignment target value p =>
      rw [Stmt.toTree, verifySteps, exprSteps_toTree value, Stmt.uses, List.map_cons]
      rfl
  | loop body condition p =>
      rw [Stmt.toTree, verifySteps, verifyRowSteps, verifyStepsAll_toTrees body,
        exprSteps_toTree condition, Stmt.uses, List.map_append]

/-- The steps of the second pass are the uses. -/
theorem verifyStepsAll_toTrees (ss : List Stmt) :
    verifyStepsAll (Stmt.toTrees ss) = (Stmt.usesAll ss).map Used.step := by
  cases ss with
  | nil => rfl
  | cons s ss =>
      rw [Stmt.toTrees, verifyStepsAll, verifySteps_toTree s, verifyStepsAll_toTrees ss,
        Stmt.usesAll, List.map_append]

end

end Checker

/-! ## The names of a table -/

/-- The symbol that a declaration puts into a table: a name and its type, and nothing else. -/
def Declared.symbol (d : Declared) : Symbol :=
  { name := d.name, typeName := d.typeName, value := .null, position := ⟨0, 0⟩ }

namespace SymbolTable

/-- The table with a declaration entered: a name that is defined already stays as it is. -/
def enter (t : SymbolTable) (d : Declared) : SymbolTable :=
  if t.contains d.name then t else t.define d.symbol

/-- The table with declarations entered in order. -/
def enterAll (t : SymbolTable) (ds : List Declared) : SymbolTable := ds.foldl enter t

/-- Entering a name that is in the table changes nothing. -/
theorem enter_known {t : SymbolTable} {d : Declared} (h : d.name ∈ t.names) : t.enter d = t := by
  rw [enter, if_pos ((contains_iff _ _).mpr h)]

/-- Entering a new name defines it. -/
theorem enter_new {t : SymbolTable} {d : Declared} (h : d.name ∉ t.names) :
    t.enter d = t.define d.symbol := by
  rw [enter, if_neg (mt (contains_iff _ _).mp h)]

/-- Entering declarations puts the first ones behind the symbols of the table. -/
theorem symbols_enterAll (t : SymbolTable) (ds : List Declared) :
    (t.enterAll ds).symbols = t.symbols ++ (firsts t.names ds).map Declared.symbol := by
  induction ds generalizing t with
  | nil => simp [enterAll, firsts]
  | cons d ds ih =>
      have hstep : t.enterAll (d :: ds) = (t.enter d).enterAll ds := rfl
      rw [hstep, ih]
      by_cases hd : d.name ∈ t.names
      · rw [enter_known hd, firsts_cons_of_mem hd]
      · rw [enter_new hd, names_define_of_new hd, symbols_define_of_new hd,
          firsts_cons_of_not_mem hd, List.map_cons, List.append_assoc, List.singleton_append]
        rfl

/-- The names after entering declarations are the old ones and the declared ones. -/
theorem mem_names_enterAll {t : SymbolTable} {ds : List Declared} {n : String} :
    n ∈ (t.enterAll ds).names ↔ n ∈ t.names ∨ n ∈ ds.map (·.name) := by
  have hfirsts : (firsts t.names ds).map (fun d => d.symbol.name) =
      (firsts t.names ds).map (·.name) := rfl
  rw [names, symbols_enterAll, List.map_append, List.map_map, List.mem_append, ← names]
  rw [Function.comp_def, hfirsts, mem_firsts_names]
  by_cases hn : n ∈ t.names <;> simp [hn]

/-- A table whose symbols are those of some declarations has their names. -/
theorem names_of_symbols {t : SymbolTable} {ds : List Declared}
    (h : t.symbols = ds.map Declared.symbol) : t.names = ds.map (·.name) := by
  rw [names, h, List.map_map]
  rfl

end SymbolTable

/-! ## Runs of steps -/

/-- The diagnostic for a declaration that is not the first one of its name. -/
def Declared.again (d : Declared) : Diagnostic := ⟨.naming, .alreadyDeclared d.name, d.position⟩

/-- The diagnostic for a use of a name that is declared nowhere. -/
def Used.unresolved (u : Used) : Diagnostic := ⟨.naming, .usedBeforeDeclared u.name, u.position⟩

/-- The two texts differ in front of their last word, whatever the names are. -/
theorem alreadyDeclared_text_ne (n m : String) :
    "Variable '" ++ n ++ "' already declared" ≠ "Variable '" ++ m ++ "' used before declared" := by
  intro h
  have hlast := congrArg (fun s : String => s.toList.reverse[9]?) h
  simp at hlast

/-- Does the diagnostic say that a name is used without being declared? -/
def Diagnostic.isUnresolved (d : Diagnostic) : Bool :=
  match d.complaint with
  | .usedBeforeDeclared _ => true
  | _ => false

namespace Checker

/-- The checker with more diagnostics, each of them reported. -/
def complainAll (c : Checker) (ds : List Diagnostic) : Checker :=
  { c with errors := c.errors ++ ds, log := c.log ++ ds.map .reported }

/-- Complaining of nothing changes nothing. -/
@[simp] theorem complainAll_nil (c : Checker) : c.complainAll [] = c := by
  simp [complainAll]

/-- Complaints are raised one behind the other. -/
theorem complainAll_append (c : Checker) (ds es : List Diagnostic) :
    (c.complainAll ds).complainAll es = c.complainAll (ds ++ es) := by
  simp [complainAll]

/-- The checker after declarations: the first ones are in the table, and there is a diagnostic for
each of the others. -/
def declareAll (c : Checker) (ds : List Declared) : Checker :=
  { c with table := c.table.enterAll ds }.complainAll
    ((repeats c.table.names ds).map Declared.again)

/-- The checker after looking at uses: there is a diagnostic for each unknown one. -/
def useAll (c : Checker) (us : List Used) : Checker :=
  c.complainAll ((us.filter fun u => ¬ u.Known c.implicit c.table.names).map Used.unresolved)

/-- The first declaration is collected first. -/
theorem declareAll_cons (c : Checker) (d : Declared) (ds : List Declared) :
    c.declareAll (d :: ds) = (c.declare d.typeName d.name d.position).declareAll ds := by
  have henter : c.table.enterAll (d :: ds) = (c.table.enter d).enterAll ds := rfl
  by_cases hd : d.name ∈ c.table.names
  · have hdeclare : c.declare d.typeName d.name d.position = c.complainAll [d.again] := by
      rw [declare, if_pos ((SymbolTable.contains_iff _ _).mpr hd)]
      rfl
    rw [hdeclare, declareAll, henter, SymbolTable.enter_known hd, repeats_cons_of_mem hd,
      List.map_cons, ← List.singleton_append, ← complainAll_append]
    rfl
  · have hdeclare : c.declare d.typeName d.name d.position =
        { c with table := c.table.define d.symbol } := by
      rw [declare, if_neg (mt (SymbolTable.contains_iff _ _).mp hd)]
      rfl
    have hnames : (c.table.define d.symbol).names = c.table.names ++ [d.name] :=
      SymbolTable.names_define_of_new hd
    rw [hdeclare, declareAll, henter, SymbolTable.enter_new hd, repeats_cons_of_not_mem hd,
      declareAll, hnames]

/-- Declaring names one by one: the first declarations enter the table, and each later one raises a
diagnostic. -/
theorem runAll_declare (ds : List Declared) (c : Checker) :
    Step.runAll (ds.map Declared.step) c = ⟨c.declareAll ds, none⟩ := by
  induction ds generalizing c with
  | nil =>
      have hsame : c.declareAll [] = c := complainAll_nil c
      rw [hsame]
      rfl
  | cons d ds ih =>
      have hstep : Step.runAll ((d :: ds).map Declared.step) c =
          Step.runAll (ds.map Declared.step) (c.declare d.typeName d.name d.position) := rfl
      rw [hstep, ih, declareAll_cons]

/-- The first use is looked at first. -/
theorem useAll_cons (c : Checker) (u : Used) (us : List Used) :
    c.useAll (u :: us) = (c.verifyName u.name u.position).useAll us := by
  rw [useAll, List.filter_cons]
  by_cases hu : u.Known c.implicit c.table.names
  · have hverify : c.verifyName u.name u.position = c := by
      rw [Used.Known, ← SymbolTable.contains_iff] at hu
      rw [verifyName, if_pos hu]
    rw [hverify, if_neg (by simpa using hu)]
    rfl
  · have hverify : c.verifyName u.name u.position = c.complainAll [u.unresolved] := by
      rw [Used.Known, ← SymbolTable.contains_iff] at hu
      rw [verifyName, if_neg hu]
      rfl
    rw [hverify, if_pos (by simpa using hu), useAll, complainAll_append]
    rfl

/-- Looking at uses one by one: each unknown one raises a diagnostic, and the table stays. -/
theorem runAll_use (us : List Used) (c : Checker) :
    Step.runAll (us.map Used.step) c = ⟨c.useAll us, none⟩ := by
  induction us generalizing c with
  | nil =>
      have hsame : c.useAll [] = c := complainAll_nil c
      rw [hsame]
      rfl
  | cons u us ih =>
      have hstep : Step.runAll ((u :: us).map Used.step) c =
          Step.runAll (us.map Used.step) (c.verifyName u.name u.position) := rfl
      rw [hstep, ih, useAll_cons]

/-- A check of a program declares the declared names in order, and then looks at the used ones. -/
theorem check_toTree (c : Checker) (p : Program) :
    c.check p.toTree = ⟨((c.declareAll p.declarations).useAll p.uses).conclude, none⟩ := by
  have hcollect : collect (.sequence (Stmt.toTrees p.statements)) c =
      ⟨c.declareAll p.declarations, none⟩ := by
    rw [collect, collectAll_eq_run, collectStepsAll_toTrees, ← Program.declarations,
      runAll_declare]
  have hverify : ∀ c, verify (.sequence (Stmt.toTrees p.statements)) c =
      ⟨c.useAll p.uses, none⟩ := by
    intro c
    rw [verify, verifyAll_eq_run, verifyStepsAll_toTrees, ← Program.uses, runAll_use]
  rw [Program.toTree, check, hcollect, andThen_running, hverify, andThen_running]

/-- The table after a check holds the declarations, each name once. -/
theorem table_check (implicit : List String) (p : Program) :
    (p.check implicit).checker.table = SymbolTable.empty.enterAll p.declarations := by
  rw [Program.check, check_toTree]
  rfl

/-- The table after a check holds exactly the declared names. -/
theorem mem_names_check (implicit : List String) (p : Program) (n : String) :
    n ∈ (p.check implicit).checker.table.names ↔ n ∈ p.declaredNames := by
  rw [table_check, SymbolTable.mem_names_enterAll, Program.declaredNames]
  exact or_iff_right List.not_mem_nil

/-- The table after a check lists the first declarations, and the diagnostics are those of repeated
declarations and then those of unknown uses. -/
theorem check_outcome (implicit : List String) (p : Program) :
    (p.check implicit).fault = none ∧
      (p.check implicit).checker.table.symbols = (firsts [] p.declarations).map Declared.symbol ∧
      (p.check implicit).checker.errors =
        (repeats [] p.declarations).map Declared.again ++
          (p.uses.filter fun u => ¬ u.Known implicit p.declaredNames).map
            Used.unresolved := by
  rw [← filter_unknown_congr (mem_names_check implicit p), table_check, Program.check,
    check_toTree]
  exact ⟨rfl, SymbolTable.symbols_enterAll SymbolTable.empty p.declarations, rfl⟩

/-- No name is in the table twice after a check. -/
theorem nodup_names_check (implicit : List String) (p : Program) :
    (p.check implicit).checker.table.names.Nodup := by
  rw [SymbolTable.names_of_symbols (check_outcome implicit p).2.1]
  exact nodup_firsts [] p.declarations

/-- The diagnostics of unknown uses among those of a check. -/
theorem unresolved_check (implicit : List String) (p : Program) :
    (p.check implicit).checker.errors.filter Diagnostic.isUnresolved =
      (p.uses.filter fun u => ¬ u.Known implicit p.declaredNames).map Used.unresolved := by
  have hagain : Diagnostic.isUnresolved ∘ Declared.again = fun _ => false := rfl
  have hunresolved : Diagnostic.isUnresolved ∘ Used.unresolved = fun _ => true := rfl
  rw [(check_outcome implicit p).2.2, List.filter_append, List.filter_map, List.filter_map, hagain,
    hunresolved]
  simp

/-- A check raises no diagnostic exactly if the names of the program are resolved. -/
theorem check_quiet_iff (implicit : List String) (p : Program) :
    (p.check implicit).checker.errors = [] ↔ p.Resolved implicit := by
  obtain ⟨-, -, herrors⟩ := check_outcome implicit p
  rw [herrors, List.append_eq_nil_iff, List.map_eq_nil_iff, List.map_eq_nil_iff,
    repeats_eq_nil_iff, List.filter_eq_nil_iff]
  constructor
  · rintro ⟨⟨-, honce⟩, hknown⟩
    refine ⟨honce, ?_⟩
    intro n hn
    obtain ⟨u, hu, rfl⟩ := List.mem_map.mp hn
    have hu' : u.Known implicit p.declaredNames := by simpa using hknown u hu
    exact hu'
  · rintro ⟨honce, hknown⟩
    refine ⟨⟨fun d _ => List.not_mem_nil, honce⟩, ?_⟩
    intro u hu
    have hu' : u.Known implicit p.declaredNames := hknown u.name (List.mem_map_of_mem hu)
    simpa using hu'

/-- The table after a check of a resolved program lists the declared names as they come. -/
theorem check_names {implicit : List String} {p : Program} (hp : p.Resolved implicit) :
    (p.check implicit).checker.table.names = p.declaredNames := by
  obtain ⟨-, hsymbols, -⟩ := check_outcome implicit p
  have hrepeats : repeats [] p.declarations = [] :=
    repeats_eq_nil_iff.mpr ⟨fun d _ => List.not_mem_nil, hp.once⟩
  rw [SymbolTable.names_of_symbols hsymbols, firsts_eq_self hrepeats, Program.declaredNames]

end Checker

/-- **What a check finds.** No fault stops it. The table lists the distinct declared names in the
order of their first declarations, each with the type of that declaration and neither a value nor a
place; the diagnostics are one for each later declaration and then one for each use of a name that
is neither implicit nor declared anywhere. -/
theorem check_exact (implicit : List String) (p : Program) :
    (p.check implicit).fault = none ∧
      ((p.check implicit).checker.table.symbols =
          (firsts [] p.declarations).map fun d =>
            { name := d.name, typeName := d.typeName, value := .null, position := ⟨0, 0⟩ }) ∧
      (p.check implicit).checker.table.names.Nodup ∧
      (∀ n, n ∈ (p.check implicit).checker.table.names ↔ ∃ d ∈ p.declarations, d.name = n) ∧
      ((p.check implicit).checker.errors.map fun d => (d.origin, d.message, d.position)) =
        ((repeats [] p.declarations).map fun d =>
          (.naming, "Variable '" ++ d.name ++ "' already declared", d.position)) ++
        ((p.uses.filter fun u =>
            u.name ∉ implicit ∧ ∀ d ∈ p.declarations, d.name ≠ u.name).map fun u =>
          (.naming, "Variable '" ++ u.name ++ "' used before declared", u.position)) := by
  obtain ⟨hfault, hsymbols, herrors⟩ := Checker.check_outcome implicit p
  have hnames := SymbolTable.names_of_symbols hsymbols
  refine ⟨hfault, hsymbols, ?_, ?_, ?_⟩
  · rw [hnames]
    exact nodup_firsts [] p.declarations
  · intro n
    rw [hnames, mem_firsts_names, and_iff_right List.not_mem_nil, List.mem_map]
  · have hunknown : (p.uses.filter fun u => ¬ u.Known implicit p.declaredNames) =
        p.uses.filter fun u => u.name ∉ implicit ∧ ∀ d ∈ p.declarations, d.name ≠ u.name := by
      refine List.filter_congr fun (u : Used) _ => ?_
      rw [decide_eq_decide, Used.Known, not_or, Program.declaredNames]
      simp
    rw [herrors, hunknown, List.map_append, List.map_map, List.map_map]
    rfl

end DoWhile
