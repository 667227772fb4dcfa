import DoWhile.Tree
import Mathlib.Data.List.Forall2

/-!
# Sameness of trees

The outline of a tree is what is left of it without the places of its nodes and with the truth
values read as numbers. Trees are the same exactly if they have one outline (`Tree.same_iff`), so
sameness is an equivalence relation. It goes through every kind of node (`Tree.isCongruence_same`),
and a node is the same only as a node of its own class (`Tree.nodeClass?_eq_of_same`), whatever
stands where nodes or rows of nodes are expected.
-/

set_option autoImplicit false

namespace DoWhile

/-- A tree whose nodes stand nowhere and in which no truth values occur. -/
inductive Outline where
  | identifier (name : String)
  | number (text : String)
  | binary (left : Outline) (operator : String) (right : Outline)
  | declaration (typeName name : String) (value : Outline)
  | assignment (target : String) (value : Outline)
  | loop (body condition : Outline)
  | program (statements : Outline)
  | text (value : String)
  | integer (value : Int)
  | absent
  | sequence (items : List Outline)
  deriving Repr, Inhabited

/-- The classes of nodes. -/
inductive NodeClass where
  | identifier
  | number
  | binary
  | declaration
  | assignment
  | loop
  | program
  deriving DecidableEq, Repr, Inhabited

/-- The class of the node that an outline belongs to, if it belongs to a node. -/
def Outline.nodeClass? : Outline → Option NodeClass
  | .identifier _ => some .identifier
  | .number _ => some .number
  | .binary _ _ _ => some .binary
  | .declaration _ _ _ => some .declaration
  | .assignment _ _ => some .assignment
  | .loop _ _ => some .loop
  | .program _ => some .program
  | _ => none

namespace Tree

mutual

/-- The tree without the places of its nodes, true read as one and false as zero. -/
def outline : Tree → Outline
  | identifier name _ => .identifier name
  | number digits _ => .number digits
  | binary left operator right _ => .binary (outline left) operator (outline right)
  | declaration typeName name value _ => .declaration typeName name (outline value)
  | assignment target value _ => .assignment target (outline value)
  | loop body condition _ => .loop (outline body) (outline condition)
  | program statements => .program (outline statements)
  | text value => .text value
  | integer value => .integer value
  | truth value => .integer value.toInt
  | absent => .absent
  | sequence items => .sequence (outlineAll items)

/-- The outlines of trees in order. -/
def outlineAll : List Tree → List Outline
  | [] => []
  | t :: ts => outline t :: outlineAll ts

end

/-! ## Sameness is having one outline -/

/-- A tree stands for the number `n` exactly if that number is all that is left of it. -/
theorem asInteger?_eq_some_iff (t : Tree) (n : Int) :
    t.asInteger? = some n ↔ t.outline = .integer n := by
  cases t with
  | integer m => simp [asInteger?, outline]
  | truth value => cases value <;> simp [asInteger?, outline]
  | _ => simp [asInteger?, outline]

mutual

/-- Trees are the same exactly if they have one outline. -/
theorem same_iff (t u : Tree) : t.same u = true ↔ t.outline = u.outline := by
  cases t with
  | identifier name p => cases u <;> simp [same, outline]
  | number text p => cases u <;> simp [same, outline]
  | binary left operator right p =>
      have hleft := same_iff left
      have hright := same_iff right
      cases u <;> simp [same, outline, hleft, hright, and_assoc]
  | declaration typeName name value p =>
      have hvalue := same_iff value
      cases u <;> simp [same, outline, hvalue, and_assoc]
  | assignment target value p =>
      have hvalue := same_iff value
      cases u <;> simp [same, outline, hvalue]
  | loop body condition p =>
      have hbody := same_iff body
      have hcondition := same_iff condition
      cases u <;> simp [same, outline, hbody, hcondition]
  | program statements =>
      have hstatements := same_iff statements
      cases u <;> simp [same, outline, hstatements]
  | text value => cases u <;> simp [same, outline]
  | integer n => rw [same, beq_iff_eq, asInteger?_eq_some_iff, outline, eq_comm]
  | truth value =>
      cases value with
      | true => rw [same, beq_iff_eq, asInteger?_eq_some_iff, outline, Bool.toInt_true, eq_comm]
      | false => rw [same, beq_iff_eq, asInteger?_eq_some_iff, outline, Bool.toInt_false, eq_comm]
  | absent => cases u <;> simp [same, outline]
  | sequence items =>
      have hitems := sameAll_iff items
      cases u <;> simp [same, outline, hitems]

/-- Lists of trees are the same exactly if they have the same outlines. -/
theorem sameAll_iff (ts us : List Tree) :
    sameAll ts us = true ↔ outlineAll ts = outlineAll us := by
  cases ts with
  | nil => cases us <;> simp [sameAll, outlineAll]
  | cons t ts =>
      have hfirst := same_iff t
      have hrest := sameAll_iff ts
      cases us <;> simp [sameAll, outlineAll, hfirst, hrest]

end

/-- Sameness is an equivalence relation. -/
theorem equivalence_same : Equivalence fun t u : Tree => t.same u = true := by
  constructor
  · intro t
    rw [same_iff]
  · intro t u h
    rw [same_iff] at h ⊢
    exact h.symm
  · intro t u v htu huv
    rw [same_iff] at htu huv ⊢
    exact htu.trans huv

/-! ## Nodes -/

/-- Lists of trees are the same exactly if they are so tree by tree. -/
theorem sameAll_iff_forall₂ (ts us : List Tree) :
    sameAll ts us = true ↔ List.Forall₂ (fun t u => t.same u = true) ts us := by
  induction ts generalizing us with
  | nil => cases us <;> simp [sameAll]
  | cons t ts ih => cases us <;> simp [sameAll, ih]

/-- Does the relation go through every kind of node: are nodes with related parts related, wherever
they stand? -/
structure IsCongruence (r : Tree → Tree → Prop) : Prop where
  identifier (name : String) (p q : Position) : r (.identifier name p) (.identifier name q)
  number (text : String) (p q : Position) : r (.number text p) (.number text q)
  binary {a b c d : Tree} (operator : String) (p q : Position) (hleft : r a b) (hright : r c d) :
    r (.binary a operator c p) (.binary b operator d q)
  declaration {a b : Tree} (typeName name : String) (p q : Position) (hvalue : r a b) :
    r (.declaration typeName name a p) (.declaration typeName name b q)
  assignment {a b : Tree} (target : String) (p q : Position) (hvalue : r a b) :
    r (.assignment target a p) (.assignment target b q)
  loop {a b c d : Tree} (p q : Position) (hbody : r a b) (hcondition : r c d) :
    r (.loop a c p) (.loop b d q)
  program {a b : Tree} (hstatements : r a b) : r (.program a) (.program b)
  sequence {ts us : List Tree} (hitems : List.Forall₂ r ts us) : r (.sequence ts) (.sequence us)

/-- Sameness goes through every kind of node. -/
theorem isCongruence_same : IsCongruence fun t u => t.same u = true where
  identifier name p q := by simp [same]
  number text p q := by simp [same]
  binary operator p q hleft hright := by simp [same, hleft, hright]
  declaration typeName name p q hvalue := by simp [same, hvalue]
  assignment target p q hvalue := by simp [same, hvalue]
  loop p q hbody hcondition := by simp [same, hbody, hcondition]
  program hstatements := by simp [same, hstatements]
  sequence hitems := by rw [same, (sameAll_iff_forall₂ _ _).mpr hitems]

/-- The class of a tree that is a node. -/
def nodeClass? : Tree → Option NodeClass
  | identifier _ _ => some .identifier
  | number _ _ => some .number
  | binary _ _ _ _ => some .binary
  | declaration _ _ _ _ => some .declaration
  | assignment _ _ _ => some .assignment
  | loop _ _ _ => some .loop
  | program _ => some .program
  | _ => none

/-- The class of a node can be told from its outline. -/
theorem nodeClass?_outline (t : Tree) : t.outline.nodeClass? = t.nodeClass? := by
  cases t with
  | truth value => cases value <;> rfl
  | _ => rfl

/-- Trees that are the same are nodes of one class, or neither of them is a node. -/
theorem nodeClass?_eq_of_same {t u : Tree} (h : t.same u = true) :
    t.nodeClass? = u.nodeClass? := by
  rw [same_iff] at h
  rw [← nodeClass?_outline, h, nodeClass?_outline]

/-- **Sameness is equality up to positions.** Trees are the same exactly if they have one outline;
this is an equivalence relation that goes through every kind of node and that never relates nodes of
different classes. -/
theorem same_iff_equal_up_to_positions :
    (∀ t u : Tree, t.same u = true ↔ t.outline = u.outline) ∧
      (Equivalence fun t u : Tree => t.same u = true) ∧
      (IsCongruence fun t u : Tree => t.same u = true) ∧
      ∀ t u : Tree, t.same u = true → t.nodeClass? = u.nodeClass? := by
  refine ⟨same_iff, equivalence_same, isCongruence_same, ?_⟩
  intro t u h
  exact nodeClass?_eq_of_same h

/-- A loop that was moved is the same loop, with a truth value in its body read as a number, and so
is a program whose statements are a truth value. -/
theorem same_iff_equal_up_to_positions_movedLoop :
    (loop (sequence [truth true]) (text "x") ⟨1, 1⟩).same
        (loop (sequence [integer 1]) (text "x") ⟨4, 2⟩) = true ∧
      (program (truth true)).same (program (integer 1)) = true ∧
      (program absent).same (program (sequence [])) = false ∧
      (loop (sequence [truth true]) (text "x") ⟨1, 1⟩).nodeClass? =
        (loop (sequence [integer 1]) (text "x") ⟨4, 2⟩).nodeClass? := by
  obtain ⟨hsame, -, hcongruence, hclass⟩ := same_iff_equal_up_to_positions
  have hloop := (hsame (loop (sequence [truth true]) (text "x") ⟨1, 1⟩)
    (loop (sequence [integer 1]) (text "x") ⟨4, 2⟩)).mpr (by simp [outline, outlineAll])
  have hnumber := (hsame (truth true) (integer 1)).mpr rfl
  have habsent : ¬ (program absent).same (program (sequence [])) = true :=
    mt (hsame _ _).mp (by simp [outline])
  exact ⟨hloop, hcongruence.program hnumber, Bool.eq_false_iff.mpr habsent, hclass _ _ hloop⟩

end Tree

end DoWhile
