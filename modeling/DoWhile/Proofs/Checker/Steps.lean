import DoWhile.Checker

/-!
# The checker step by step

Each pass of the checker is a run over a list of steps: to declare a name, to look at a use, or to
stop at something that it does not know. The steps depend on the tree alone, and running them is all
that the passes do (`collect_eq_run`, `verifyExpr_eq_run`, `verify_eq_run`).
-/

set_option autoImplicit false

namespace DoWhile.Checker

/-- One step of a pass. -/
inductive Step where
  | declare (typeName name : String) (position : Position)
  | use (name : String) (position : Position)
  | stop (fault : Fault)
  deriving Repr, Inhabited

namespace Step

/-- What a step does. -/
def run : Step → Checker → Progress
  | declare typeName name p, c => ⟨c.declare typeName name p, none⟩
  | use name p, c => ⟨c.verifyName name p, none⟩
  | stop fault, c => ⟨c, some fault⟩

/-- Steps one behind the other, up to the first one that stops. -/
def runAll : List Step → Checker → Progress
  | [], c => ⟨c, none⟩
  | s :: ss, c => (s.run c).andThen (runAll ss)

end Step

/-! ## The steps of a tree -/

/-- The step at a statement of no known kind. -/
def stopStep (node : Tree) : Step := .stop (.naming .unknownStatement node)

mutual

/-- The steps that collect the declarations of a statement. -/
def collectSteps : Tree → List Step
  | .declaration typeName name _ p => [.declare typeName name p]
  | .loop body _ _ => collectRowSteps body
  | .assignment _ _ _ => []
  | node => [stopStep node]

/-- The steps that collect the declarations of a row of statements. -/
def collectRowSteps : Tree → List Step
  | .sequence items => collectStepsAll items
  | .text s => (Tree.characters s).map stopStep
  | node => [.stop (.notIterable node.className)]

/-- The steps that collect the declarations of statements in order. -/
def collectStepsAll : List Tree → List Step
  | [] => []
  | s :: ss => collectSteps s ++ collectStepsAll ss

end

/-- The steps that verify the names of an expression. -/
def exprSteps : Tree → List Step
  | .identifier name p => [.use name p]
  | .binary left _ right _ => exprSteps left ++ exprSteps right
  | .number _ _ => []
  | node => [.stop (.naming .unknownExpression node)]

mutual

/-- The steps that verify the names of a statement. -/
def verifySteps : Tree → List Step
  | .declaration _ _ value _ => exprSteps value
  | .assignment target value p => .use target p :: exprSteps value
  | .loop body condition _ => verifyRowSteps body ++ exprSteps condition
  | node => [stopStep node]

/-- The steps that verify the names of a row of statements. -/
def verifyRowSteps : Tree → List Step
  | .sequence items => verifyStepsAll items
  | .text s => (Tree.characters s).map stopStep
  | node => [.stop (.notIterable node.className)]

/-- The steps that verify the names of statements in order. -/
def verifyStepsAll : List Tree → List Step
  | [] => []
  | s :: ss => verifySteps s ++ verifyStepsAll ss

end

/-! ## A pass is the run of its steps -/

/-- Work goes on if nothing has stopped it. -/
theorem andThen_running (c : Checker) (f : Checker → Progress) :
    (⟨c, none⟩ : Progress).andThen f = f c := rfl

/-- Three pieces of work can be joined from either side. -/
theorem andThen_assoc (r : Progress) (f g : Checker → Progress) :
    (r.andThen f).andThen g = r.andThen fun c => (f c).andThen g := by
  obtain ⟨c, fault⟩ := r
  cases fault <;> rfl

namespace Step

/-- Running steps and then others is running them all, unless the first ones stop. -/
theorem runAll_append (xs ys : List Step) (c : Checker) :
    runAll (xs ++ ys) c = (runAll xs c).andThen (runAll ys) := by
  induction xs generalizing c with
  | nil => rfl
  | cons x xs ih =>
      rw [List.cons_append, runAll, runAll, andThen_assoc]
      congr 1
      funext c
      exact ih c

end Step

/-- Going through the characters of a text is running the steps that stop at them. -/
theorem meetCharacters_eq_run (s : String) (c : Checker) :
    meetCharacters s.toList c = Step.runAll ((Tree.characters s).map stopStep) c := by
  rw [Tree.characters]
  cases s.toList with
  | nil => rfl
  | cons ch chs => rfl

mutual

/-- Collecting from a statement is running the steps that collect from it. -/
theorem collectFrom_eq_run (t : Tree) (c : Checker) :
    collectFrom t c = Step.runAll (collectSteps t) c := by
  cases t with
  | loop body condition p => exact collect_eq_run body c
  | _ => rfl

/-- Collecting declarations is running the steps that collect them. -/
theorem collect_eq_run (t : Tree) (c : Checker) :
    collect t c = Step.runAll (collectRowSteps t) c := by
  cases t with
  | sequence items => exact collectAll_eq_run items c
  | text s => exact meetCharacters_eq_run s c
  | _ => rfl

/-- Collecting from statements is running the steps that collect from them. -/
theorem collectAll_eq_run (ts : List Tree) (c : Checker) :
    collectAll ts c = Step.runAll (collectStepsAll ts) c := by
  cases ts with
  | nil => rfl
  | cons t ts =>
      rw [collectAll, collectStepsAll, Step.runAll_append, collectFrom_eq_run t c]
      congr 1
      funext c
      exact collectAll_eq_run ts c

end

/-- Verifying an expression is running the steps that verify it. -/
theorem verifyExpr_eq_run (t : Tree) (c : Checker) :
    verifyExpr t c = Step.runAll (exprSteps t) c := by
  cases t with
  | binary left operator right p =>
      rw [verifyExpr, exprSteps, Step.runAll_append, verifyExpr_eq_run left c]
      congr 1
      funext c
      exact verifyExpr_eq_run right c
  | _ => rfl

mutual

/-- Verifying a statement is running the steps that verify it. -/
theorem verifyFrom_eq_run (t : Tree) (c : Checker) :
    verifyFrom t c = Step.runAll (verifySteps t) c := by
  cases t with
  | declaration typeName name value p => exact verifyExpr_eq_run value c
  | assignment target value p => exact verifyExpr_eq_run value (c.verifyName target p)
  | loop body condition p =>
      rw [verifyFrom, verifySteps, Step.runAll_append, verify_eq_run body c]
      congr 1
      funext c
      exact verifyExpr_eq_run condition c
  | _ => rfl

/-- Verifying uses is running the steps that verify them. -/
theorem verify_eq_run (t : Tree) (c : Checker) :
    verify t c = Step.runAll (verifyRowSteps t) c := by
  cases t with
  | sequence items => exact verifyAll_eq_run items c
  | text s => exact meetCharacters_eq_run s c
  | _ => rfl

/-- Verifying statements is running the steps that verify them. -/
theorem verifyAll_eq_run (ts : List Tree) (c : Checker) :
    verifyAll ts c = Step.runAll (verifyStepsAll ts) c := by
  cases ts with
  | nil => rfl
  | cons t ts =>
      rw [verifyAll, verifyStepsAll, Step.runAll_append, verifyFrom_eq_run t c]
      congr 1
      funext c
      exact verifyAll_eq_run ts c

end

/-! ## Rows -/

/-- Each character of a text is met as an unknown statement by the first pass. -/
theorem collectStepsAll_characters (s : String) :
    collectStepsAll (Tree.characters s) = (Tree.characters s).map stopStep := by
  rw [Tree.characters]
  induction s.toList with
  | nil => rfl
  | cons ch chs ih => exact congrArg (stopStep (.text (String.singleton ch)) :: ·) ih

/-- Each character of a text is met as an unknown statement by the second pass. -/
theorem verifyStepsAll_characters (s : String) :
    verifyStepsAll (Tree.characters s) = (Tree.characters s).map stopStep := by
  rw [Tree.characters]
  induction s.toList with
  | nil => rfl
  | cons ch chs ih => exact congrArg (stopStep (.text (String.singleton ch)) :: ·) ih

/-- The first pass goes item by item through whatever can be gone through, and stops at anything
else. -/
theorem collect_eq_items (t : Tree) (c : Checker) :
    collect t c = match t.items? with
      | some items => collectAll items c
      | none => ⟨c, some (.notIterable t.className)⟩ := by
  cases t with
  | text s =>
      rw [collect, meetCharacters_eq_run, ← collectStepsAll_characters, ← collectAll_eq_run]
      rfl
  | _ => rfl

/-- The second pass goes item by item through whatever can be gone through, and stops at anything
else. -/
theorem verify_eq_items (t : Tree) (c : Checker) :
    verify t c = match t.items? with
      | some items => verifyAll items c
      | none => ⟨c, some (.notIterable t.className)⟩ := by
  cases t with
  | text s =>
      rw [verify, meetCharacters_eq_run, ← verifyStepsAll_characters, ← verifyAll_eq_run]
      rfl
  | _ => rfl

end DoWhile.Checker
