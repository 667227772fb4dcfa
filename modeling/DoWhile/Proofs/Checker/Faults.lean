import DoWhile.Proofs.Checker.Exact
import DoWhile.Proofs.Tree.Writing

/-!
# Foreign nodes

A tree from elsewhere may hold anything in the place of a statement, of a row of statements or of an
expression. The first pass of a check goes through rows and loop bodies and meets statements, and
bodies that cannot be gone through (`Tree.walkRow`); it stops at the first thing that it does not
know (`Checker.collect_eq`). If there is none, the second pass meets the expressions
(`Tree.expressionsRow`), and stops at the first one that it does not know (`Checker.verify_eq`).
What a pass has done until then is done, so the fault and the state that it leaves are exact for
every tree (`Checker.check_stops`). A fault names its node in full, unless an integer in the node is
too long to be written (`Fault.Names`).
-/

set_option autoImplicit false

namespace DoWhile

/-! ## What the passes meet -/

/-- What the first pass meets: a statement, or a body that cannot be gone through. -/
inductive Met where
  | statement (node : Tree)
  | noRow (body : Tree)
  deriving Repr, Inhabited

namespace Tree

/-- Is the tree a statement of a known kind? -/
def isStatement : Tree → Bool
  | declaration _ _ _ _ => true
  | assignment _ _ _ => true
  | loop _ _ _ => true
  | _ => false

/-- Is the tree an expression of a known kind? -/
def isExpression : Tree → Bool
  | identifier _ _ => true
  | number _ _ => true
  | binary _ _ _ _ => true
  | _ => false

mutual

/-- A statement and, behind a loop, what is met in its body. -/
def walk : Tree → List Met
  | loop body condition p => .statement (loop body condition p) :: walkRow body
  | node => [.statement node]

/-- What is met in a row of statements. -/
def walkRow : Tree → List Met
  | sequence items => walkAll items
  | text s => (characters s).map .statement
  | body => [.noRow body]

/-- What is met in statements in order. -/
def walkAll : List Tree → List Met
  | [] => []
  | t :: ts => walk t ++ walkAll ts

end

/-- An expression and, behind a sign, what stands on its left and then what stands on its right. -/
def operands : Tree → List Tree
  | binary left operator right p =>
    binary left operator right p :: (operands left ++ operands right)
  | node => [node]

mutual

/-- The expressions of a statement in the order of verification. The target of an assignment comes
before its value, as the identifier that stands there. -/
def expressions : Tree → List Tree
  | declaration _ _ value _ => operands value
  | assignment target value p => identifier target p :: operands value
  | loop body condition _ => expressionsRow body ++ operands condition
  | _ => []

/-- The expressions of a row of statements. -/
def expressionsRow : Tree → List Tree
  | sequence items => expressionsAll items
  | _ => []

/-- The expressions of statements in order. -/
def expressionsAll : List Tree → List Tree
  | [] => []
  | t :: ts => expressions t ++ expressionsAll ts

end

/-- What a statement declares by itself. -/
def declared? : Tree → Option Declared
  | declaration typeName name _ p => some ⟨typeName, name, p⟩
  | _ => none

/-- What an expression uses by itself. -/
def used? : Tree → Option Used
  | identifier name p => some ⟨name, p⟩
  | _ => none

end Tree

namespace Met

/-- Is it a statement of a known kind? -/
def isKnown : Met → Bool
  | statement node => node.isStatement
  | noRow _ => false

/-- What it declares by itself. -/
def declared? : Met → Option Declared
  | statement node => node.declared?
  | noRow _ => none

/-- The fault of a pass that does not know it. -/
def fault : Met → Fault
  | statement node => .naming .unknownStatement node
  | noRow body => .notIterable body.className

end Met

namespace Tree

/-- The first thing in a row of statements that is no statement of a known kind. -/
def unknownStatement? (row : Tree) : Option Met := row.walkRow.find? fun m => !m.isKnown

/-- The first expression in a row of statements that is of no known kind. -/
def unknownExpression? (row : Tree) : Option Tree :=
  row.expressionsRow.find? fun t => !t.isExpression

/-- The declarations in front of the first unknown statement. -/
def collected (row : Tree) : List Declared :=
  (row.walkRow.takeWhile Met.isKnown).filterMap Met.declared?

/-- The uses in front of the first unknown expression. -/
def verified (row : Tree) : List Used :=
  (row.expressionsRow.takeWhile isExpression).filterMap used?

/-- A row has no unknown statement exactly if everything met in it is known. -/
theorem unknownStatement?_eq_none {row : Tree} :
    row.unknownStatement? = none ↔ ∀ m ∈ row.walkRow, m.isKnown = true := by
  simp [unknownStatement?]

/-- A row has no unknown expression exactly if all its expressions are known. -/
theorem unknownExpression?_eq_none {row : Tree} :
    row.unknownExpression? = none ↔ ∀ t ∈ row.expressionsRow, t.isExpression = true := by
  simp [unknownExpression?]

/-- If no statement is unknown, the declarations are all collected. -/
theorem collected_eq {row : Tree} (h : row.unknownStatement? = none) :
    row.collected = row.walkRow.filterMap Met.declared? := by
  rw [collected, List.takeWhile_eq_self_iff.mpr (unknownStatement?_eq_none.mp h)]

/-- If no expression is unknown, the uses are all verified. -/
theorem verified_eq {row : Tree} (h : row.unknownExpression? = none) :
    row.verified = row.expressionsRow.filterMap used? := by
  rw [verified, List.takeWhile_eq_self_iff.mpr (unknownExpression?_eq_none.mp h)]

/-- The characters of a text are no statements: if all that is met in it is known, it is empty. -/
theorem characters_eq_nil {s : String} (h : ∀ m ∈ (text s).walkRow, m.isKnown = true) :
    characters s = [] := by
  rw [List.eq_nil_iff_forall_not_mem]
  intro u hu
  have hknown := h (.statement u) (List.mem_map_of_mem hu)
  obtain ⟨ch, -, rfl⟩ := List.mem_map.mp hu
  exact Bool.false_ne_true hknown

end Tree

/-! ## Steps node by node -/

namespace Checker

/-- The steps at one node: a known one takes a step or none, and an unknown one stops. -/
def nodeSteps {α : Type} (known : α → Bool) (step? : α → Option Step) (fault : α → Fault)
    (node : α) : List Step :=
  if known node then (step? node).toList else [.stop (fault node)]

/-- A pass takes the steps of the nodes up to the first unknown one, and stops there. -/
theorem runAll_nodeSteps {α : Type} (known : α → Bool) (step? : α → Option Step)
    (fault : α → Fault) (nodes : List α) (c : Checker) :
    Step.runAll (nodes.flatMap (nodeSteps known step? fault)) c =
      (Step.runAll ((nodes.takeWhile known).filterMap step?) c).andThen fun c =>
        ⟨c, (nodes.find? fun t => !known t).map fault⟩ := by
  induction nodes generalizing c with
  | nil => rfl
  | cons t ts ih =>
      rw [List.flatMap_cons, List.takeWhile_cons, List.find?_cons]
      cases ht : known t with
      | false =>
          -- nothing is taken, and the rest is not reached
          have hstop : nodeSteps known step? fault t = [.stop (fault t)] := by
            rw [nodeSteps, ht]
            rfl
          rw [hstop]
          rfl
      | true =>
          have hgo : nodeSteps known step? fault t = (step? t).toList := by
            rw [nodeSteps, ht]
            rfl
          have htaken : (t :: ts.takeWhile known).filterMap step? =
              (step? t).toList ++ (ts.takeWhile known).filterMap step? := by
            cases h : step? t <;> simp [h]
          rw [hgo, if_pos rfl, htaken, Step.runAll_append, Step.runAll_append, andThen_assoc]
          congr 1
          funext c
          exact ih c

/-- The steps of the first pass at what it meets. -/
def statementSteps : Met → List Step :=
  nodeSteps Met.isKnown (fun m => m.declared?.map Declared.step) Met.fault

/-- The steps of the second pass at one node. -/
def expressionSteps : Tree → List Step :=
  nodeSteps Tree.isExpression (fun t => t.used?.map Used.step) (.naming .unknownExpression)

/-- The first pass stops at each character of a text. -/
theorem flatMap_characters (s : String) :
    ((Tree.characters s).map Met.statement).flatMap statementSteps =
      (Tree.characters s).map stopStep := by
  rw [Tree.characters, List.flatMap_map, List.flatMap_map, List.map_map]
  exact (List.map_eq_flatMap ..).symm

mutual

/-- The steps of the first pass at a statement are the steps at what is met in it. -/
theorem collectSteps_eq_flatMap (t : Tree) : collectSteps t = t.walk.flatMap statementSteps := by
  cases t with
  | loop body condition p =>
      have hloop : statementSteps (.statement (.loop body condition p)) = [] := rfl
      rw [collectSteps, Tree.walk, List.flatMap_cons, hloop, List.nil_append,
        collectRowSteps_eq_flatMap body]
  | _ => rfl

/-- The first pass goes through what it meets in a row. -/
theorem collectRowSteps_eq_flatMap (t : Tree) :
    collectRowSteps t = t.walkRow.flatMap statementSteps := by
  cases t with
  | sequence items => exact collectStepsAll_eq_flatMap items
  | text s => exact (flatMap_characters s).symm
  | _ => rfl

/-- The steps of the first pass at statements are the steps at what is met in them. -/
theorem collectStepsAll_eq_flatMap (ts : List Tree) :
    collectStepsAll ts = (Tree.walkAll ts).flatMap statementSteps := by
  cases ts with
  | nil => rfl
  | cons t ts =>
      rw [collectStepsAll, Tree.walkAll, List.flatMap_append, collectSteps_eq_flatMap t,
        collectStepsAll_eq_flatMap ts]

end

/-- The steps at an expression are the steps at its operands. -/
theorem exprSteps_eq_flatMap (t : Tree) : exprSteps t = t.operands.flatMap expressionSteps := by
  cases t with
  | binary left operator right p =>
      have hbinary : expressionSteps (.binary left operator right p) = [] := rfl
      rw [exprSteps, Tree.operands, List.flatMap_cons, hbinary, List.nil_append,
        List.flatMap_append, exprSteps_eq_flatMap left, exprSteps_eq_flatMap right]
  | _ => rfl

mutual

/-- The steps of the second pass at a statement are the steps at its expressions, if all statements
in it are known. -/
theorem verifySteps_eq_flatMap (t : Tree) (h : ∀ m ∈ t.walk, m.isKnown = true) :
    verifySteps t = t.expressions.flatMap expressionSteps := by
  cases t with
  | declaration typeName name value p => exact exprSteps_eq_flatMap value
  | assignment target value p =>
      have htarget : expressionSteps (.identifier target p) = [.use target p] := rfl
      rw [verifySteps, Tree.expressions, List.flatMap_cons, htarget, List.singleton_append,
        exprSteps_eq_flatMap value]
  | loop body condition p =>
      have hbody : ∀ m ∈ body.walkRow, m.isKnown = true :=
        fun m hm => h m (List.mem_cons_of_mem _ hm)
      rw [verifySteps, Tree.expressions, List.flatMap_append, verifyRowSteps_eq_flatMap body hbody,
        exprSteps_eq_flatMap condition]
  -- any other tree is met as a statement itself
  | _ => exact absurd (h _ List.mem_cons_self) Bool.false_ne_true

/-- The second pass goes through the expressions that it meets, if all statements are known. -/
theorem verifyRowSteps_eq_flatMap (t : Tree) (h : ∀ m ∈ t.walkRow, m.isKnown = true) :
    verifyRowSteps t = t.expressionsRow.flatMap expressionSteps := by
  cases t with
  | sequence items => exact verifyStepsAll_eq_flatMap items h
  | text s =>
      rw [verifyRowSteps, Tree.characters_eq_nil h]
      rfl
  -- any other tree is met itself
  | _ => exact absurd (h _ List.mem_cons_self) Bool.false_ne_true

/-- The steps of the second pass at statements are the steps at their expressions, if all statements
in them are known. -/
theorem verifyStepsAll_eq_flatMap (ts : List Tree)
    (h : ∀ m ∈ Tree.walkAll ts, m.isKnown = true) :
    verifyStepsAll ts = (Tree.expressionsAll ts).flatMap expressionSteps := by
  cases ts with
  | nil => rfl
  | cons t ts =>
      have hfirst : ∀ m ∈ t.walk, m.isKnown = true :=
        fun m hm => h m (List.mem_append_left _ hm)
      have hrest : ∀ m ∈ Tree.walkAll ts, m.isKnown = true :=
        fun m hm => h m (List.mem_append_right _ hm)
      rw [verifyStepsAll, Tree.expressionsAll, List.flatMap_append,
        verifySteps_eq_flatMap t hfirst, verifyStepsAll_eq_flatMap ts hrest]

end

/-! ## Passes -/

/-- What the first pass does to a row of statements. -/
theorem collect_eq (row : Tree) (c : Checker) :
    collect row c = ⟨c.declareAll row.collected, row.unknownStatement?.map Met.fault⟩ := by
  rw [collect_eq_run, collectRowSteps_eq_flatMap, statementSteps, runAll_nodeSteps,
    ← List.map_filterMap, runAll_declare]
  rfl

/-- What the second pass does to a row of statements without unknown ones. -/
theorem verify_eq {row : Tree} (h : row.unknownStatement? = none) (c : Checker) :
    verify row c = ⟨c.useAll row.verified,
      row.unknownExpression?.map (.naming .unknownExpression)⟩ := by
  rw [verify_eq_run, verifyRowSteps_eq_flatMap row (Tree.unknownStatement?_eq_none.mp h),
    expressionSteps, runAll_nodeSteps, ← List.map_filterMap, runAll_use]
  rfl

/-- A check stops at the first unknown statement, with the declarations in front of it collected. -/
theorem check_of_unknownStatement {row : Tree} {m : Met} (h : row.unknownStatement? = some m)
    (c : Checker) :
    c.check (.program row) = ⟨c.declareAll row.collected, some m.fault⟩ := by
  rw [check, collect_eq, h]
  rfl

/-- If all statements are known, a check stops at the first unknown expression, with all
declarations collected and the uses in front of it verified. -/
theorem check_of_unknownExpression {row node : Tree} (hstatements : row.unknownStatement? = none)
    (h : row.unknownExpression? = some node) (c : Checker) :
    c.check (.program row) = ⟨(c.declareAll row.collected).useAll row.verified,
      some (.naming .unknownExpression node)⟩ := by
  rw [check, collect_eq, hstatements, Option.map_none, andThen_running, verify_eq hstatements, h]
  rfl

/-- If all statements and expressions are known, a check collects all declarations and verifies all
uses. -/
theorem check_of_known {row : Tree} (hstatements : row.unknownStatement? = none)
    (h : row.unknownExpression? = none) (c : Checker) :
    c.check (.program row) =
      ⟨((c.declareAll row.collected).useAll row.verified).conclude, none⟩ := by
  rw [check, collect_eq, hstatements, Option.map_none, andThen_running, verify_eq hstatements, h]
  rfl

/-! ## What a check leaves behind -/

/-- Do the table and the diagnostics of `c'` come from those of `c` by collecting the declarations
`ds` and verifying the uses `us`, and nothing else? -/
structure Extends (c : Checker) (ds : List Declared) (us : List Used) (c' : Checker) : Prop where
  implicit : c'.implicit = c.implicit
  symbols : c'.table.symbols = c.table.symbols ++ (firsts c.table.names ds).map Declared.symbol
  errors : c'.errors = c.errors ++ (repeats c.table.names ds).map Declared.again ++
    (us.filter fun u => u.name ∉ c.implicit ∧ u.name ∉ c'.table.names).map Used.unresolved

/-- Collecting declarations and then verifying uses extends a checker by just these. -/
theorem extends_useAll (c : Checker) (ds : List Declared) (us : List Used) :
    c.Extends ds us ((c.declareAll ds).useAll us) := by
  constructor
  · rfl
  · exact SymbolTable.symbols_enterAll c.table ds
  · have hunknown : (us.filter fun u => ¬ u.Known c.implicit (c.table.enterAll ds).names) =
        us.filter fun u => u.name ∉ c.implicit ∧ u.name ∉ (c.table.enterAll ds).names := by
      refine List.filter_congr fun (u : Used) _ => ?_
      rw [decide_eq_decide, Used.Known, not_or]
    have htable : ((c.declareAll ds).useAll us).table = c.table.enterAll ds := rfl
    rw [htable, ← hunknown]
    rfl

/-- Collecting declarations extends a checker by them and by no uses. -/
theorem extends_declareAll (c : Checker) (ds : List Declared) :
    c.Extends ds [] (c.declareAll ds) := by
  have hsame : (c.declareAll ds).useAll [] = c.declareAll ds := complainAll_nil _
  rw [← hsame]
  exact extends_useAll c ds []

/-- Noting the sizes at the end changes neither the table nor the diagnostics. -/
theorem Extends.conclude {c c' : Checker} {ds : List Declared} {us : List Used}
    (h : c.Extends ds us c') : c.Extends ds us c'.conclude := ⟨h.implicit, h.symbols, h.errors⟩

end Checker

/-! ## What a fault names -/

/-- Is the fault of kind `kind` and about the node, with the node written out behind the wording? If
an integer in the node is too long to be written, it is the fault of that integer. -/
structure Fault.Names (kind : Tree → Fault) (wording : String) (node : Tree)
    (fault? : Option Fault) : Prop where
  short (h : ∀ n ∈ node.integers, n.natAbs < 10 ^ Text.maxDigits) :
    fault? = some (kind node) ∧
      ∃ written, node.quoted? = some written ∧
        fault?.bind Fault.message = some (wording ++ written)
  long {n : Int} (hn : n ∈ node.integers) (h : 10 ^ Text.maxDigits ≤ n.natAbs) :
    fault? = some .longInteger

/-- A fault that names a node does so, whatever its kind, if that is how its kind is worded. -/
theorem Fault.names_naming {kind : Tree → Fault} {wording : String}
    (hmessage : ∀ node, (kind node).message = node.quoted?.map (wording ++ ·)) (node : Tree) :
    Fault.Names kind wording node (some (.naming kind node)) where
  short h := by
    obtain ⟨written, hwritten⟩ := Option.isSome_iff_exists.mp (node.quoted?_isSome_iff.mpr h)
    have hnaming : Fault.naming kind node = kind node := by rw [naming, hwritten]
    rw [hnaming]
    refine ⟨rfl, written, hwritten, ?_⟩
    rw [Option.bind_some, hmessage, hwritten, Option.map_some]
  long hn h := by
    have hnone : node.quoted? = none := by
      rw [← Option.not_isSome_iff_eq_none, node.quoted?_isSome_iff]
      exact fun hall => absurd (hall _ hn) (not_lt.mpr h)
    rw [naming, hnone]

namespace Checker

/-- **What stops a check, and what is done by then.** A check of a program stops with a fault
exactly if it meets a statement that it does not know, a body that cannot be gone through or an
expression that it does not know. The first unknown statement stops it before any use is looked at,
with the declarations in front of that statement collected, and so does the first body that is no
row. If all statements are known, the declarations are all collected, and the first unknown
expression stops it with the uses in front of that expression verified. The fault names the node. -/
theorem check_stops (c : Checker) (row : Tree) :
    ((c.check (.program row)).fault.isSome = true ↔
        (∃ m ∈ row.walkRow, m.isKnown = false) ∨
          ∃ e ∈ row.expressionsRow, e.isExpression = false) ∧
      (∀ node, row.unknownStatement? = some (.statement node) →
        Fault.Names .unknownStatement "Unknown statement node: " node
          (c.check (.program row)).fault ∧
        c.Extends row.collected [] (c.check (.program row)).checker) ∧
      (∀ body, row.unknownStatement? = some (.noRow body) →
        (c.check (.program row)).fault = some (.notIterable body.className) ∧
        c.Extends row.collected [] (c.check (.program row)).checker) ∧
      (∀ node, row.unknownStatement? = none → row.unknownExpression? = some node →
        Fault.Names .unknownExpression "Unknown expression node: " node
          (c.check (.program row)).fault ∧
        c.Extends (row.walkRow.filterMap Met.declared?) row.verified
          (c.check (.program row)).checker) ∧
      (row.unknownStatement? = none → row.unknownExpression? = none →
        (c.check (.program row)).fault = none ∧
        c.Extends (row.walkRow.filterMap Met.declared?)
          (row.expressionsRow.filterMap Tree.used?) (c.check (.program row)).checker) := by
  refine ⟨?_, ?_, ?_, ?_, ?_⟩
  · have hstatements : (∃ m ∈ row.walkRow, m.isKnown = false) ↔
        row.unknownStatement?.isSome = true := by
      simp [Tree.unknownStatement?]
    have hexpressions : (∃ e ∈ row.expressionsRow, e.isExpression = false) ↔
        row.unknownExpression?.isSome = true := by
      simp [Tree.unknownExpression?]
    rw [hstatements, hexpressions]
    cases hs : row.unknownStatement? with
    | some m => simp [check_of_unknownStatement hs]
    | none =>
        cases he : row.unknownExpression? with
        | some node => simp [check_of_unknownExpression hs he]
        | none => simp [check_of_known hs he]
  · intro node hs
    rw [check_of_unknownStatement hs]
    exact ⟨Fault.names_naming (fun _ => rfl) node, c.extends_declareAll _⟩
  · intro body hs
    rw [check_of_unknownStatement hs]
    exact ⟨rfl, c.extends_declareAll _⟩
  · intro node hs he
    rw [check_of_unknownExpression hs he, Tree.collected_eq hs]
    exact ⟨Fault.names_naming (fun _ => rfl) node, c.extends_useAll _ _⟩
  · intro hs he
    rw [check_of_known hs he, Tree.collected_eq hs, Tree.verified_eq he]
    exact ⟨rfl, (c.extends_useAll _ _).conclude⟩

/-- A text in a loop body, behind an assignment of nothing. -/
def textInBody : Tree :=
  .sequence [.assignment "a" .absent ⟨1, 1⟩, .loop (.sequence [.text "b"]) .absent ⟨2, 1⟩]

/-- A number in the place of a loop body, behind a declaration. -/
def numberAsBody : Tree :=
  .sequence [.declaration "int" "a" .absent ⟨1, 1⟩, .loop (.integer 5) .absent ⟨2, 1⟩]

/-- An operand that is absent, behind a name. -/
def absentOperand : Tree :=
  .sequence [.assignment "a" (.binary (.identifier "b" ⟨1, 5⟩) "+" .absent ⟨1, 5⟩) ⟨1, 1⟩]

/-- A statement with one digit more than can be written. -/
def longStatement : Tree := .sequence [.integer (10 ^ Text.maxDigits : Nat)]

/-- A text in a loop body stops a check, also behind an unknown expression, with nothing said of the
uses; a body that is a number leaves the declaration in front of it; an absent operand stops a check
behind the diagnostics of the names in front of it; and an integer may be too long to be named. -/
theorem check_stops_foreignNodes :
    ((new []).check (.program textInBody)).fault = some (.unknownStatement (.text "b")) ∧
      (new []).Extends [] [] ((new []).check (.program textInBody)).checker ∧
      ((new []).check (.program numberAsBody)).fault = some (.notIterable "int") ∧
      (new []).Extends [⟨"int", "a", ⟨1, 1⟩⟩] []
        ((new []).check (.program numberAsBody)).checker ∧
      ((new []).check (.program absentOperand)).fault = some (.unknownExpression .absent) ∧
      (new []).Extends [] [⟨"a", ⟨1, 1⟩⟩, ⟨"b", ⟨1, 5⟩⟩]
        ((new []).check (.program absentOperand)).checker ∧
      ((new []).check (.program longStatement)).fault = some .longInteger := by
  obtain ⟨-, htext, -, -, -⟩ := check_stops (new []) textInBody
  obtain ⟨-, -, hnumber, -, -⟩ := check_stops (new []) numberAsBody
  obtain ⟨-, -, -, habsent, -⟩ := check_stops (new []) absentOperand
  obtain ⟨-, hlong, -, -, -⟩ := check_stops (new []) longStatement
  obtain ⟨htextNames, htextLeft⟩ := htext (.text "b") rfl
  obtain ⟨hnumberFault, hnumberLeft⟩ := hnumber (.integer 5) rfl
  obtain ⟨habsentNames, habsentLeft⟩ := habsent .absent rfl rfl
  obtain ⟨hlongNames, -⟩ := hlong (.integer (10 ^ Text.maxDigits : Nat)) rfl
  refine ⟨?_, htextLeft, hnumberFault, hnumberLeft, ?_, habsentLeft, ?_⟩
  · exact (htextNames.short (by simp [Tree.integers])).1
  · exact (habsentNames.short (by simp [Tree.integers])).1
  · exact hlongNames.long List.mem_cons_self (Int.natAbs_natCast _).ge

end Checker

end DoWhile
