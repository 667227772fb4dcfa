import DoWhile.Proofs.Checker.Exact
import DoWhile.Proofs.Program.Relabeling
import Mathlib.Data.List.Basic

/-!
# Checking and relabeling

The check of a program compares names and never looks at a place. If a relabeling takes different
names to different ones, the check of the relabeled program, with the implicit names renamed
alongside, finds the same declarations first, the same ones repeated and the same names unknown
(`Checker.check_relabel`).
-/

set_option autoImplicit false

namespace DoWhile

variable {r : Relabeling}

/-- Declarations of renamed names are first ones and repeated ones where they were before. -/
theorem firsts_repeats_relabel (hinj : Function.Injective r.name) (before : List String)
    (ds : List Declared) :
    firsts (before.map r.name) (ds.map (Declared.relabel r)) =
        (firsts before ds).map (Declared.relabel r) ∧
      repeats (before.map r.name) (ds.map (Declared.relabel r)) =
        (repeats before ds).map (Declared.relabel r) := by
  induction ds generalizing before with
  | nil => exact ⟨rfl, rfl⟩
  | cons d ds ih =>
      have hmem : (d.relabel r).name ∈ before.map r.name ↔ d.name ∈ before :=
        List.mem_map_of_injective hinj
      have hbefore : before.map r.name ++ [(d.relabel r).name] =
          (before ++ [d.name]).map r.name := by
        rw [List.map_append]
        rfl
      obtain ⟨hfirsts, hrepeats⟩ := ih (before ++ [d.name])
      rw [List.map_cons, firsts, firsts, repeats, repeats, hbefore, hfirsts, hrepeats,
        List.map_append, List.map_append]
      by_cases hd : d.name ∈ before
      · simp [hd, hmem]
      · simp [hd, hmem]

/-- A use is known after renaming exactly if it was known before. -/
theorem Used.known_relabel (hinj : Function.Injective r.name) {implicit declared : List String}
    {u : Used} : (u.relabel r).Known (implicit.map r.name) (declared.map r.name) ↔
      u.Known implicit declared := by
  unfold Known
  exact or_congr (List.mem_map_of_injective hinj) (List.mem_map_of_injective hinj)

/-- Renaming a program renames its declared names. -/
theorem Program.declaredNames_relabel (p : Program) :
    (p.relabel r).declaredNames = p.declaredNames.map r.name := by
  unfold declaredNames
  rw [declarations_relabel, List.map_map, List.map_map]
  rfl

variable (r) in
/-- A symbol under its new name. -/
def Symbol.relabel (s : Symbol) : Symbol := { s with name := r.name s.name }

namespace Checker

/-- **Checking commutes with relabeling.** Where a relabeling takes different names to different
ones, the check of the relabeled program fills the table with the same symbols under their new names
and raises the relabeled diagnostics. -/
theorem check_relabel (hinj : Function.Injective r.name) (implicit : List String) (p : Program) :
    ((p.relabel r).check (implicit.map r.name)).checker.table.symbols =
        (p.check implicit).checker.table.symbols.map (Symbol.relabel r) ∧
      ((p.relabel r).check (implicit.map r.name)).checker.errors =
        (p.check implicit).checker.errors.map (Diagnostic.relabel r) := by
  obtain ⟨-, hsymbols, herrors⟩ := check_outcome implicit p
  obtain ⟨-, hsymbols', herrors'⟩ := check_outcome (implicit.map r.name) (p.relabel r)
  obtain ⟨hfirsts, hrepeats⟩ := firsts_repeats_relabel hinj [] p.declarations
  rw [List.map_nil] at hfirsts hrepeats
  have hunknown : ((p.relabel r).uses.filter fun u =>
      ¬ u.Known (implicit.map r.name) (p.relabel r).declaredNames) =
      (p.uses.filter fun u => ¬ u.Known implicit p.declaredNames).map (Used.relabel r) := by
    rw [Program.uses_relabel, Program.declaredNames_relabel, List.filter_map]
    congr 1
    refine List.filter_congr fun (u : Used) _ => ?_
    simp [Used.known_relabel hinj]
  constructor
  · rw [hsymbols', hsymbols, Program.declarations_relabel, hfirsts, List.map_map, List.map_map]
    rfl
  · rw [herrors', herrors, hunknown, Program.declarations_relabel, hrepeats, List.map_append,
      List.map_map, List.map_map, List.map_map, List.map_map]
    rfl

end Checker

end DoWhile
