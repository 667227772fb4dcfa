import Mathlib.Algebra.Group.Nat.Defs
import DoWhile.Tree

/-!
# Which trees can be written out

An integer is written if it is smaller than `10 ^ maxDigits`, up to its sign
(`Text.decimal?_isSome_iff`). Nothing else keeps a tree from being written out: it is written
exactly if all integers in it are, those of the places of its nodes included
(`Tree.quoted?_isSome_iff`).
-/

set_option autoImplicit false

namespace DoWhile

/-- Integers of up to `maxDigits` digits are written, and no others. -/
theorem Text.decimal?_isSome_iff (n : Int) :
    (Text.decimal? n).isSome = true ↔ n.natAbs < 10 ^ Text.maxDigits := by
  have hpositive : 0 < Text.maxDigits := by decide
  rw [← Nat.length_toDigits_le_iff (by decide) hpositive, Text.decimal?, Text.decimalLength,
    Option.isSome_ite]

namespace Tree

/-- The integers of a place. -/
def placeIntegers (p : Position) : List Int := [p.line, p.column]

mutual

/-- The integers that stand in a tree, those of the places of its nodes included. -/
def integers : Tree → List Int
  | identifier _ p => placeIntegers p
  | number _ p => placeIntegers p
  | binary left _ right p => integers left ++ integers right ++ placeIntegers p
  | declaration _ _ value p => integers value ++ placeIntegers p
  | assignment _ value p => integers value ++ placeIntegers p
  | loop body condition p => integers body ++ integers condition ++ placeIntegers p
  | program statements => integers statements
  | integer value => [value]
  | sequence items => integersAll items
  | _ => []

/-- The integers that stand in the trees of a list. -/
def integersAll : List Tree → List Int
  | [] => []
  | t :: ts => integers t ++ integersAll ts

end

/-- A place is written exactly if its two integers are. -/
theorem positionFields?_isSome_iff (p : Position) :
    (positionFields? p).isSome = true ↔
      ∀ n ∈ placeIntegers p, (Text.decimal? n).isSome = true := by
  cases hline : Text.decimal? p.line <;> cases hcolumn : Text.decimal? p.column <;>
    simp [positionFields?, placeIntegers, hline, hcolumn]

mutual

/-- A tree is written out exactly if every integer in it can be written. -/
theorem isSome_quoted?_iff_decimal? (t : Tree) :
    t.quoted?.isSome = true ↔ ∀ n ∈ t.integers, (Text.decimal? n).isSome = true := by
  cases t with
  | identifier name p =>
      rw [integers, ← positionFields?_isSome_iff, quoted?]
      cases positionFields? p <;> rfl
  | number text p =>
      rw [integers, ← positionFields?_isSome_iff, quoted?]
      cases positionFields? p <;> rfl
  | binary left operator right p =>
      have hleft := isSome_quoted?_iff_decimal? left
      have hright := isSome_quoted?_iff_decimal? right
      rw [integers, List.forall_mem_append, List.forall_mem_append, ← hleft, ← hright,
        ← positionFields?_isSome_iff, quoted?]
      cases left.quoted? <;> cases right.quoted? <;> cases positionFields? p <;> simp
  | declaration typeName name value p =>
      have hvalue := isSome_quoted?_iff_decimal? value
      rw [integers, List.forall_mem_append, ← hvalue, ← positionFields?_isSome_iff, quoted?]
      cases value.quoted? <;> cases positionFields? p <;> simp
  | assignment target value p =>
      have hvalue := isSome_quoted?_iff_decimal? value
      rw [integers, List.forall_mem_append, ← hvalue, ← positionFields?_isSome_iff, quoted?]
      cases value.quoted? <;> cases positionFields? p <;> simp
  | loop body condition p =>
      have hbody := isSome_quoted?_iff_decimal? body
      have hcondition := isSome_quoted?_iff_decimal? condition
      rw [integers, List.forall_mem_append, List.forall_mem_append, ← hbody, ← hcondition,
        ← positionFields?_isSome_iff, quoted?]
      cases body.quoted? <;> cases condition.quoted? <;> cases positionFields? p <;> simp
  | program statements =>
      have hstatements := isSome_quoted?_iff_decimal? statements
      rw [integers, ← hstatements, quoted?]
      cases statements.quoted? <;> simp
  | text value => simp [quoted?, integers]
  | integer value => simp [quoted?, integers]
  | truth value => cases value <;> simp [quoted?, integers]
  | absent => simp [quoted?, integers]
  | sequence items =>
      have hitems := isSome_quotedAll?_iff_decimal? items
      rw [integers, ← hitems, quoted?, Option.isSome_map]

/-- The trees of a list are written out exactly if every integer in them can be written. -/
theorem isSome_quotedAll?_iff_decimal? (ts : List Tree) :
    (quotedAll? ts).isSome = true ↔ ∀ n ∈ integersAll ts, (Text.decimal? n).isSome = true := by
  cases ts with
  | nil => simp [quotedAll?, integersAll]
  | cons t ts =>
      have hfirst := isSome_quoted?_iff_decimal? t
      have hrest := isSome_quotedAll?_iff_decimal? ts
      rw [integersAll, List.forall_mem_append, ← hfirst, ← hrest, quotedAll?]
      cases t.quoted? <;> cases quotedAll? ts <;> simp

end

/-- **A tree is written out exactly if no integer in it is too long**, the integers of the places of
its nodes included. -/
theorem quoted?_isSome_iff (t : Tree) :
    t.quoted?.isSome = true ↔ ∀ n ∈ t.integers, n.natAbs < 10 ^ Text.maxDigits := by
  rw [isSome_quoted?_iff_decimal?]
  exact forall₂_congr fun n _ => Text.decimal?_isSome_iff n

end Tree

end DoWhile
