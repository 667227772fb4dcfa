import DoWhile.Event
import DoWhile.Proofs.Program.Names

/-!
# Relabeling

A relabeling gives names to names and places to places. It acts on everything that holds a name or a
place: on tokens, on programs, on diagnostics. Of a lexeme it changes the text only if the lexeme
is an identifier, so what a text says apart from its names stays as it is. A relabeling that keeps
all names leaves a program the same (`Program.same_relabel`) and a diagnostic its wording
(`Diagnostic.message_relabel`).

The names that a relabeled program declares and uses are those of the program, relabeled
(`Program.declarations_relabel`, `Program.uses_relabel`).
-/

set_option autoImplicit false

namespace DoWhile

/-- New names for names and new places for places. -/
structure Relabeling where
  name : String → String
  place : Position → Position

/-- The relabeling that keeps all names. -/
def Relabeling.moving (place : Position → Position) : Relabeling := ⟨id, place⟩

/-- A relabeling that moves keeps every name. -/
@[simp] theorem Relabeling.name_moving (place : Position → Position) (n : String) :
    (moving place).name n = n := rfl

/-- A relabeling that moves changes places as it is told. -/
@[simp] theorem Relabeling.place_moving (place : Position → Position) (p : Position) :
    (moving place).place p = place p := rfl

variable (r : Relabeling)

/-! ## Tokens -/

/-- The lexeme with its name changed, if it is an identifier. -/
def Lexeme.relabel (l : Lexeme) : Lexeme :=
  if l.kind = .identifier then ⟨.identifier, r.name l.literal⟩ else l

/-- The token with its lexeme and its place changed. -/
def Token.relabel (t : Token) : Token := ⟨t.toLexeme.relabel r, r.place t.position⟩

namespace Lexeme

variable {r} {l : Lexeme}

/-- An identifier is relabeled by its name. -/
theorem relabel_of_identifier (h : l.kind = .identifier) :
    l.relabel r = ⟨.identifier, r.name l.literal⟩ := by
  rw [relabel, if_pos h]

/-- A lexeme that is no identifier stays what it is. -/
theorem relabel_of_ne (h : l.kind ≠ .identifier) : l.relabel r = l := by
  rw [relabel, if_neg h]

/-- Relabeling keeps the kind of a lexeme. -/
@[simp] theorem kind_relabel : (l.relabel r).kind = l.kind := by
  by_cases h : l.kind = .identifier
  · rw [relabel_of_identifier h, h]
  · rw [relabel_of_ne h]

/-- A relabeled lexeme stands for the same symbol or reserved word, or for none. -/
@[simp] theorem isMark_relabel (w : String) : (l.relabel r).isMark w = l.isMark w := by
  by_cases h : l.kind = .identifier
  · simp [isMark, h]
  · rw [relabel_of_ne h]

/-- A relabeling that moves keeps every lexeme. -/
theorem relabel_moving (place : Position → Position) : l.relabel (.moving place) = l := by
  by_cases h : l.kind = .identifier
  · rw [relabel_of_identifier h, ← h]
    rfl
  · exact relabel_of_ne h

end Lexeme

namespace Token

variable {r} {t : Token}

/-- The lexeme of a relabeled token is its lexeme, relabeled. -/
@[simp] theorem toLexeme_relabel : (t.relabel r).toLexeme = t.toLexeme.relabel r := rfl

/-- The place of a relabeled token is its place, relabeled. -/
@[simp] theorem position_relabel : (t.relabel r).position = r.place t.position := rfl

/-- Relabeling keeps what is the end of the input. -/
@[simp] theorem isEnd_relabel : (t.relabel r).isEnd = t.isEnd := by
  unfold isEnd
  rw [toLexeme_relabel, Lexeme.kind_relabel]

/-- A moved token has its lexeme at another place. -/
theorem relabel_moving (place : Position → Position) :
    t.relabel (.moving place) = ⟨t.toLexeme, place t.position⟩ := by
  unfold relabel
  rw [Lexeme.relabel_moving]
  rfl

end Token

/-! ## Programs -/

/-- The expression with its names and places changed. -/
def Expr.relabel : Expr → Expr
  | .identifier name p => .identifier (r.name name) (r.place p)
  | .number text p => .number text (r.place p)
  | .binary left operator right p => .binary left.relabel operator right.relabel (r.place p)

namespace Stmt

mutual

/-- The statement with its names and places changed. -/
def relabel : Stmt → Stmt
  | .declaration typeName name value p =>
    .declaration typeName (r.name name) (value.relabel r) (r.place p)
  | .assignment target value p => .assignment (r.name target) (value.relabel r) (r.place p)
  | .loop body condition p => .loop (relabelAll body) (condition.relabel r) (r.place p)

/-- Statements in order, each with its names and places changed. -/
def relabelAll : List Stmt → List Stmt
  | [] => []
  | s :: ss => relabel s :: relabelAll ss

end

/-- Statements are relabeled one by one. -/
theorem relabelAll_eq_map (ss : List Stmt) : relabelAll r ss = ss.map (relabel r) := by
  induction ss with
  | nil => rfl
  | cons s ss ih => rw [relabelAll, ih, List.map_cons]

end Stmt

/-- The program with its names and places changed. -/
def Program.relabel (p : Program) : Program := ⟨p.statements.map (Stmt.relabel r)⟩

/-- The place of a relabeled expression is its place, relabeled. -/
@[simp] theorem Expr.position_relabel (e : Expr) :
    (e.relabel r).position = r.place e.position := by
  cases e <;> rfl

/-! ### Sameness -/

/-- An expression that is moved is the same tree. -/
theorem Expr.same_relabel (place : Position → Position) (e : Expr) :
    e.toTree.same (e.relabel (.moving place)).toTree = true := by
  induction e with
  | identifier name p => simp [relabel, toTree, Tree.same]
  | number text p => simp [relabel, toTree, Tree.same]
  | binary left operator right p ihl ihr => simp [relabel, toTree, Tree.same, ihl, ihr]

namespace Stmt

mutual

/-- A statement that is moved is the same tree. -/
theorem same_relabel (place : Position → Position) :
    ∀ s : Stmt, s.toTree.same (s.relabel (.moving place)).toTree = true
  | .declaration typeName name value p => by
      simp [relabel, toTree, Tree.same, Expr.same_relabel]
  | .assignment target value p => by
      simp [relabel, toTree, Tree.same, Expr.same_relabel]
  | .loop body condition p => by
      simp [relabel, toTree, Tree.same, Expr.same_relabel, sameAll_relabel place body]

/-- Statements that are moved are the same trees. -/
theorem sameAll_relabel (place : Position → Position) :
    ∀ ss : List Stmt, Tree.sameAll (toTrees ss) (toTrees (relabelAll (.moving place) ss)) = true
  | [] => rfl
  | s :: ss => by
      simp [relabelAll, toTrees, Tree.sameAll, same_relabel place s, sameAll_relabel place ss]

end

end Stmt

/-- Moving the nodes of a program leaves it the same program. -/
theorem Program.same_relabel (place : Position → Position) (p : Program) :
    p.toTree.same (p.relabel (.moving place)).toTree = true := by
  rw [toTree, toTree, Tree.same, Tree.same, relabel, ← Stmt.relabelAll_eq_map]
  exact Stmt.sameAll_relabel place p.statements

/-! ### Names -/

/-- The declaration with its name and its place changed. -/
def Declared.relabel (d : Declared) : Declared := ⟨d.typeName, r.name d.name, r.place d.position⟩

/-- The use with its name and its place changed. -/
def Used.relabel (u : Used) : Used := ⟨r.name u.name, r.place u.position⟩

/-- A relabeled expression uses what it used, relabeled. -/
theorem Expr.uses_relabel (e : Expr) : (e.relabel r).uses = e.uses.map (Used.relabel r) := by
  induction e with
  | identifier name p => rfl
  | number text p => rfl
  | binary left operator right p ihl ihr => rw [relabel, uses, uses, ihl, ihr, List.map_append]

namespace Stmt

mutual

/-- A relabeled statement declares what it declared, relabeled. -/
theorem declarations_relabel :
    ∀ s : Stmt, (s.relabel r).declarations = s.declarations.map (Declared.relabel r)
  | .declaration _ _ _ _ => rfl
  | .assignment _ _ _ => rfl
  | .loop body _ _ => by
      rw [relabel, declarations, declarations, declarationsAll_relabel body]

/-- Relabeled statements declare what they declared, relabeled. -/
theorem declarationsAll_relabel : ∀ ss : List Stmt,
    declarationsAll (relabelAll r ss) = (declarationsAll ss).map (Declared.relabel r)
  | [] => rfl
  | s :: ss => by
      rw [relabelAll, declarationsAll, declarationsAll, declarations_relabel s,
        declarationsAll_relabel ss, List.map_append]

end

mutual

/-- A relabeled statement uses what it used, relabeled. -/
theorem uses_relabel : ∀ s : Stmt, (s.relabel r).uses = s.uses.map (Used.relabel r)
  | .declaration _ _ value _ => value.uses_relabel r
  | .assignment _ value _ => by
      rw [relabel, uses, uses, value.uses_relabel r]
      rfl
  | .loop body condition _ => by
      rw [relabel, uses, uses, usesAll_relabel body, condition.uses_relabel r, List.map_append]

/-- Relabeled statements use what they used, relabeled. -/
theorem usesAll_relabel :
    ∀ ss : List Stmt, usesAll (relabelAll r ss) = (usesAll ss).map (Used.relabel r)
  | [] => rfl
  | s :: ss => by
      rw [relabelAll, usesAll, usesAll, uses_relabel s, usesAll_relabel ss, List.map_append]

end

end Stmt

/-- A relabeled program declares what it declared, relabeled. -/
theorem Program.declarations_relabel (p : Program) :
    (p.relabel r).declarations = p.declarations.map (Declared.relabel r) := by
  rw [declarations, relabel, ← Stmt.relabelAll_eq_map]
  exact Stmt.declarationsAll_relabel r p.statements

/-- A relabeled program uses what it used, relabeled. -/
theorem Program.uses_relabel (p : Program) :
    (p.relabel r).uses = p.uses.map (Used.relabel r) := by
  rw [uses, relabel, ← Stmt.relabelAll_eq_map]
  exact Stmt.usesAll_relabel r p.statements

/-! ## Diagnostics -/

/-- The expectation with the name in it changed. -/
def Expectation.relabel : Expectation → Expectation
  | .equalsAfterVariable name => .equalsAfterVariable (r.name name)
  | .equalsAfterTarget target => .equalsAfterTarget (r.name target)
  | wanted => wanted

/-- The complaint with the names in it changed. -/
def Complaint.relabel : Complaint → Complaint
  | .unexpected found => .unexpected (found.relabel r)
  | .expected wanted found => .expected (wanted.relabel r) (found.relabel r)
  | .alreadyDeclared name => .alreadyDeclared (r.name name)
  | .usedBeforeDeclared name => .usedBeforeDeclared (r.name name)
  | complaint => complaint

/-- The diagnostic with its complaint and its place changed. -/
def Diagnostic.relabel (d : Diagnostic) : Diagnostic :=
  ⟨d.origin, d.complaint.relabel r, r.place d.position⟩

/-- The event with the names and places in it changed. -/
def Event.relabel : Event → Event
  | .unrecognized c p => .unrecognized c (r.place p)
  | .reported d => .reported (d.relabel r)
  | event => event

/-- A relabeling that moves keeps every expectation. -/
theorem Expectation.relabel_moving (place : Position → Position) (wanted : Expectation) :
    wanted.relabel (.moving place) = wanted := by
  cases wanted <;> rfl

/-- A relabeling that moves keeps every complaint. -/
theorem Complaint.relabel_moving (place : Position → Position) (c : Complaint) :
    c.relabel (.moving place) = c := by
  cases c with
  | unexpected found => rw [relabel, Lexeme.relabel_moving]
  | expected wanted found => rw [relabel, Lexeme.relabel_moving, Expectation.relabel_moving]
  | tooManyRounds => rfl
  | alreadyDeclared name => rfl
  | usedBeforeDeclared name => rfl
  | remark text => rfl

/-- Moving a diagnostic leaves it its wording. -/
theorem Diagnostic.message_relabel (place : Position → Position) (d : Diagnostic) :
    (d.relabel (.moving place)).message = d.message := by
  rw [message, relabel, Complaint.relabel_moving, message]

end DoWhile
