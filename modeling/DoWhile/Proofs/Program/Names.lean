import DoWhile.Proofs.Program.Lexemes

/-!
# The names of a program

The declarations and the uses of a program, each in the order in which the program is read. Loop
bodies are entered where they stand; in a use of names, the target of an assignment comes before
its value, a loop body before its condition, and a left operand before a right one.

`firsts` and `repeats` split declarations by whether an earlier one gave the same name already.
-/

set_option autoImplicit false

namespace DoWhile

/-- A name as it is declared somewhere. -/
structure Declared where
  typeName : String
  name : String
  position : Position
  deriving DecidableEq, Repr, Inhabited

/-- A name as it is used somewhere. -/
structure Used where
  name : String
  position : Position
  deriving DecidableEq, Repr, Inhabited

/-- Is the used name known: implicit or declared? -/
def Used.Known (implicit declared : List String) (u : Used) : Prop :=
  u.name ∈ implicit ∨ u.name ∈ declared

/-- It is decidable whether a used name is known. -/
instance (implicit declared : List String) (u : Used) : Decidable (u.Known implicit declared) :=
  inferInstanceAs (Decidable (u.name ∈ implicit ∨ u.name ∈ declared))

/-- Which uses are unknown depends only on which names are declared. -/
theorem filter_unknown_congr {declared declared' : List String}
    (h : ∀ n, n ∈ declared ↔ n ∈ declared') (implicit : List String) (us : List Used) :
    (us.filter fun u => ¬ u.Known implicit declared) =
      us.filter fun u => ¬ u.Known implicit declared' := by
  refine List.filter_congr fun (u : Used) _ => ?_
  rw [decide_eq_decide, Used.Known, Used.Known, h]

/-- The names that an expression uses, from left to right. -/
def Expr.uses : Expr → List Used
  | identifier name p => [⟨name, p⟩]
  | number _ _ => []
  | binary left _ right _ => left.uses ++ right.uses

namespace Stmt

mutual

/-- The names that a statement declares. -/
def declarations : Stmt → List Declared
  | declaration typeName name _ p => [⟨typeName, name, p⟩]
  | assignment _ _ _ => []
  | loop body _ _ => declarationsAll body

/-- The names that statements declare, in order. -/
def declarationsAll : List Stmt → List Declared
  | [] => []
  | s :: ss => declarations s ++ declarationsAll ss

end

mutual

/-- The names that a statement uses. -/
def uses : Stmt → List Used
  | declaration _ _ value _ => value.uses
  | assignment target value p => ⟨target, p⟩ :: value.uses
  | loop body condition _ => usesAll body ++ condition.uses

/-- The names that statements use, in order. -/
def usesAll : List Stmt → List Used
  | [] => []
  | s :: ss => uses s ++ usesAll ss

end

end Stmt

namespace Stmt

/-- Statements declare what each of them declares. -/
theorem declarationsAll_eq_flatMap (ss : List Stmt) :
    declarationsAll ss = ss.flatMap declarations := by
  induction ss with
  | nil => rfl
  | cons s ss ih => rw [declarationsAll, ih, List.flatMap_cons]

/-- Statements use what each of them uses. -/
theorem usesAll_eq_flatMap (ss : List Stmt) : usesAll ss = ss.flatMap uses := by
  induction ss with
  | nil => rfl
  | cons s ss ih => rw [usesAll, ih, List.flatMap_cons]

end Stmt

namespace Program

/-- The names that a program declares. -/
def declarations (p : Program) : List Declared := Stmt.declarationsAll p.statements

/-- The names that a program uses. -/
def uses (p : Program) : List Used := Stmt.usesAll p.statements

/-- The declared names of a program, one for each declaration. -/
def declaredNames (p : Program) : List String := p.declarations.map (·.name)

/-- The used names of a program, one for each use. -/
def usedNames (p : Program) : List String := p.uses.map (·.name)

/-- A program in which no name is declared twice and every used one is declared or implicit. -/
structure Resolved (implicit : List String) (p : Program) : Prop where
  once : p.declaredNames.Nodup
  known : ∀ n ∈ p.usedNames, n ∈ implicit ∨ n ∈ p.declaredNames

end Program

/-! ## Names and positions -/

/-- Without its places, an expression uses the same names. -/
theorem Expr.uses_unplaced (e : Expr) : e.unplaced.uses.map (·.name) = e.uses.map (·.name) := by
  induction e with
  | identifier name p => rfl
  | number text p => rfl
  | binary left operator right p ihl ihr =>
      rw [unplaced, uses, uses, List.map_append, List.map_append, ihl, ihr]

namespace Stmt

mutual

/-- Without its places, a statement declares the same names. -/
theorem declarations_unplaced (s : Stmt) :
    s.unplaced.declarations.map (·.name) = s.declarations.map (·.name) := by
  cases s with
  | declaration typeName name value p => rfl
  | assignment target value p => rfl
  | loop body condition p => exact declarationsAll_unplaced body

/-- Without their places, statements declare the same names. -/
theorem declarationsAll_unplaced (ss : List Stmt) :
    (declarationsAll (unplacedAll ss)).map (·.name) = (declarationsAll ss).map (·.name) := by
  cases ss with
  | nil => rfl
  | cons s ss =>
      rw [unplacedAll, declarationsAll, declarationsAll, List.map_append, List.map_append,
        declarations_unplaced s, declarationsAll_unplaced ss]

end

mutual

/-- Without its places, a statement uses the same names. -/
theorem uses_unplaced (s : Stmt) : s.unplaced.uses.map (·.name) = s.uses.map (·.name) := by
  cases s with
  | declaration typeName name value p => exact value.uses_unplaced
  | assignment target value p =>
      rw [unplaced, uses, uses, List.map_cons, List.map_cons, value.uses_unplaced]
  | loop body condition p =>
      rw [unplaced, uses, uses, List.map_append, List.map_append, usesAll_unplaced body,
        condition.uses_unplaced]

/-- Without their places, statements use the same names. -/
theorem usesAll_unplaced (ss : List Stmt) :
    (usesAll (unplacedAll ss)).map (·.name) = (usesAll ss).map (·.name) := by
  cases ss with
  | nil => rfl
  | cons s ss =>
      rw [unplacedAll, usesAll, usesAll, List.map_append, List.map_append, uses_unplaced s,
        usesAll_unplaced ss]

end

end Stmt

namespace Program

/-- Without its places, a program declares the same names. -/
theorem declaredNames_unplaced (p : Program) : p.unplaced.declaredNames = p.declaredNames :=
  Stmt.declarationsAll_unplaced p.statements

/-- Without its places, a program uses the same names. -/
theorem usedNames_unplaced (p : Program) : p.unplaced.usedNames = p.usedNames :=
  Stmt.usesAll_unplaced p.statements

/-- Programs that are equal up to places declare the same names. -/
theorem declaredNames_congr {p q : Program} (h : p.unplaced = q.unplaced) :
    p.declaredNames = q.declaredNames := by
  rw [← p.declaredNames_unplaced, h, q.declaredNames_unplaced]

/-- Whether the names of a program are resolved does not depend on its positions. -/
theorem Resolved.congr {implicit : List String} {p q : Program} (h : p.unplaced = q.unplaced)
    (hp : p.Resolved implicit) : q.Resolved implicit := by
  have hused : p.usedNames = q.usedNames := by
    rw [← p.usedNames_unplaced, h, q.usedNames_unplaced]
  obtain ⟨honce, hknown⟩ := hp
  rw [declaredNames_congr h] at honce hknown
  rw [hused] at hknown
  exact ⟨honce, hknown⟩

end Program

/-! ## First and later declarations -/

/-- The declarations whose name was not declared before, where the names `before` were. -/
def firsts (before : List String) : List Declared → List Declared
  | [] => []
  | d :: ds => (if d.name ∈ before then [] else [d]) ++ firsts (before ++ [d.name]) ds

/-- The declarations whose name was declared before, where the names `before` were. -/
def repeats (before : List String) : List Declared → List Declared
  | [] => []
  | d :: ds => (if d.name ∈ before then [d] else []) ++ repeats (before ++ [d.name]) ds

/-- Lists with the same names have them also with one more. -/
theorem mem_concat_congr {names names' : List String} (h : ∀ n, n ∈ names ↔ n ∈ names')
    (name n : String) : n ∈ names ++ [name] ↔ n ∈ names' ++ [name] := by
  rw [List.mem_append, List.mem_append, h]

/-- Which declarations are first ones depends only on which names were declared before. -/
theorem firsts_congr {before before' : List String} (h : ∀ n, n ∈ before ↔ n ∈ before')
    (ds : List Declared) : firsts before ds = firsts before' ds := by
  induction ds generalizing before before' with
  | nil => rfl
  | cons d ds ih =>
      rw [firsts, firsts, ih (mem_concat_congr h d.name)]
      simp only [h]

/-- Which declarations are repetitions depends only on which names were declared before. -/
theorem repeats_congr {before before' : List String} (h : ∀ n, n ∈ before ↔ n ∈ before')
    (ds : List Declared) : repeats before ds = repeats before' ds := by
  induction ds generalizing before before' with
  | nil => rfl
  | cons d ds ih =>
      rw [repeats, repeats, ih (mem_concat_congr h d.name)]
      simp only [h]

/-- What is repeated behind some declarations is repeated after their names. -/
theorem repeats_append (before : List String) (ds es : List Declared) :
    repeats before (ds ++ es) = repeats before ds ++ repeats (before ++ ds.map (·.name)) es := by
  induction ds generalizing before with
  | nil => rw [List.nil_append, List.map_nil, List.append_nil, repeats, List.nil_append]
  | cons d ds ih =>
      rw [List.cons_append, repeats, repeats, ih, List.map_cons, List.append_assoc,
        List.append_assoc, List.singleton_append]

/-- A name that is among the names already adds none. -/
theorem mem_concat_of_mem {names : List String} {name : String} (h : name ∈ names) (n : String) :
    n ∈ names ++ [name] ↔ n ∈ names := by
  rw [List.mem_append, List.mem_singleton]
  exact ⟨fun hn => hn.elim id fun heq => heq ▸ h, .inl⟩

/-- A declaration of a name that was declared before is no first one. -/
theorem firsts_cons_of_mem {before : List String} {d : Declared} (h : d.name ∈ before)
    (ds : List Declared) : firsts before (d :: ds) = firsts before ds := by
  rw [firsts, if_pos h, List.nil_append, firsts_congr (mem_concat_of_mem h)]

/-- A declaration of a name that was declared before is a repeated one. -/
theorem repeats_cons_of_mem {before : List String} {d : Declared} (h : d.name ∈ before)
    (ds : List Declared) : repeats before (d :: ds) = d :: repeats before ds := by
  rw [repeats, if_pos h, List.singleton_append, repeats_congr (mem_concat_of_mem h)]

/-- A declaration of a new name is a first one. -/
theorem firsts_cons_of_not_mem {before : List String} {d : Declared} (h : d.name ∉ before)
    (ds : List Declared) : firsts before (d :: ds) = d :: firsts (before ++ [d.name]) ds := by
  rw [firsts, if_neg h, List.singleton_append]

/-- A declaration of a new name is no repeated one. -/
theorem repeats_cons_of_not_mem {before : List String} {d : Declared} (h : d.name ∉ before)
    (ds : List Declared) : repeats before (d :: ds) = repeats (before ++ [d.name]) ds := by
  rw [repeats, if_neg h, List.nil_append]

/-- Declarations of names that were all declared before are all repetitions. -/
theorem repeats_eq_self {before : List String} {ds : List Declared}
    (h : ∀ d ∈ ds, d.name ∈ before) : repeats before ds = ds := by
  induction ds with
  | nil => rfl
  | cons d ds ih =>
      obtain ⟨hd, hds⟩ := List.forall_mem_cons.mp h
      rw [repeats_cons_of_mem hd, ih hds]

/-- The names declared for the first time are the new ones. -/
theorem mem_firsts_names {before : List String} {ds : List Declared} {n : String} :
    n ∈ (firsts before ds).map (·.name) ↔ n ∉ before ∧ n ∈ ds.map (·.name) := by
  induction ds generalizing before with
  | nil => simp [firsts]
  | cons d ds ih =>
      rw [firsts, List.map_append, List.mem_append, ih, List.map_cons, List.mem_cons,
        List.mem_append, List.mem_singleton]
      by_cases hd : d.name ∈ before
      · have hne : n ∉ before → n ≠ d.name := fun hn heq => hn (heq ▸ hd)
        rw [if_pos hd, List.map_nil]
        simp only [List.not_mem_nil, false_or, not_or]
        constructor
        · rintro ⟨⟨hn, -⟩, hmem⟩
          exact ⟨hn, .inr hmem⟩
        · rintro ⟨hn, heq | hmem⟩
          · exact absurd heq (hne hn)
          · exact ⟨⟨hn, hne hn⟩, hmem⟩
      · rw [if_neg hd, List.map_singleton, List.mem_singleton]
        constructor
        · rintro (rfl | ⟨hn, hmem⟩)
          · exact ⟨hd, .inl rfl⟩
          · exact ⟨fun h => hn (.inl h), .inr hmem⟩
        · rintro ⟨hn, heq | hmem⟩
          · exact .inl heq
          · by_cases heq : n = d.name
            · exact .inl heq
            · exact .inr ⟨not_or.mpr ⟨hn, heq⟩, hmem⟩

/-- No two first declarations have one name. -/
theorem nodup_firsts (before : List String) (ds : List Declared) :
    ((firsts before ds).map (·.name)).Nodup := by
  induction ds generalizing before with
  | nil => simp [firsts]
  | cons d ds ih =>
      have hrest := ih (before ++ [d.name])
      rw [firsts]
      by_cases hd : d.name ∈ before
      · rw [if_pos hd, List.nil_append]
        exact hrest
      · rw [if_neg hd, List.singleton_append, List.map_cons, List.nodup_cons]
        refine ⟨?_, hrest⟩
        rw [mem_firsts_names]
        rintro ⟨hnew, -⟩
        exact hnew (by simp)

/-- No declaration is a repetition exactly if the names are new and all different. -/
theorem repeats_eq_nil_iff {before : List String} {ds : List Declared} :
    repeats before ds = [] ↔ (∀ d ∈ ds, d.name ∉ before) ∧ (ds.map (·.name)).Nodup := by
  induction ds generalizing before with
  | nil => simp [repeats]
  | cons d ds ih =>
      rw [repeats, List.append_eq_nil_iff, ih, List.map_cons, List.nodup_cons,
        List.forall_mem_cons]
      have hhead : (if d.name ∈ before then [d] else []) = [] ↔ d.name ∉ before := by
        by_cases hd : d.name ∈ before <;> simp [hd]
      rw [hhead]
      constructor
      · rintro ⟨hd, hall, hnodup⟩
        refine ⟨⟨hd, fun e he hmem => hall e he (List.mem_append_left _ hmem)⟩, ?_, hnodup⟩
        intro hmem
        obtain ⟨e, he, heq⟩ := List.mem_map.mp hmem
        exact hall e he (by simp [heq])
      · rintro ⟨⟨hd, hall⟩, hnew, hnodup⟩
        refine ⟨hd, ?_, hnodup⟩
        intro e he hmem
        rcases List.mem_append.mp hmem with hmem | hmem
        · exact hall e he hmem
        · rw [List.mem_singleton] at hmem
          exact hnew (List.mem_map.mpr ⟨e, he, hmem⟩)

/-- If none is a repetition, all declarations are first ones. -/
theorem firsts_eq_self {before : List String} {ds : List Declared} (h : repeats before ds = []) :
    firsts before ds = ds := by
  induction ds generalizing before with
  | nil => rfl
  | cons d ds ih =>
      rw [repeats, List.append_eq_nil_iff] at h
      have hd : d.name ∉ before := by
        intro hd
        rw [if_pos hd] at h
        exact absurd h.1 (by simp)
      rw [firsts, if_neg hd, ih h.2, List.singleton_append]

/-- Repetitions come in the order of the declarations. -/
theorem repeats_sublist (before : List String) (ds : List Declared) :
    (repeats before ds).Sublist ds := by
  induction ds generalizing before with
  | nil => exact List.Sublist.refl []
  | cons d ds ih =>
      rw [repeats]
      by_cases hd : d.name ∈ before
      · rw [if_pos hd, List.singleton_append]
        exact (ih _).cons_cons d
      · rw [if_neg hd, List.nil_append]
        exact (ih _).cons d

/-- The first declarations come in the order of the declarations. -/
theorem firsts_sublist (before : List String) (ds : List Declared) :
    (firsts before ds).Sublist ds := by
  induction ds generalizing before with
  | nil => exact List.Sublist.refl []
  | cons d ds ih =>
      rw [firsts]
      by_cases hd : d.name ∈ before
      · rw [if_pos hd, List.nil_append]
        exact (ih _).cons d
      · rw [if_neg hd, List.singleton_append]
        exact (ih _).cons_cons d

/-- A repetition stands behind an earlier declaration of its name, unless the name was declared
before. -/
theorem earlier_of_mem_repeats {before : List String} {ds : List Declared} {d : Declared}
    (h : d ∈ repeats before ds) :
    ∃ front back, ds = front ++ d :: back ∧ (d.name ∈ before ∨ ∃ e ∈ front, e.name = d.name) := by
  induction ds generalizing before with
  | nil => exact absurd h List.not_mem_nil
  | cons c ds ih =>
      rw [repeats, List.mem_append] at h
      rcases h with h | h
      · by_cases hc : c.name ∈ before
        · rw [if_pos hc, List.mem_singleton] at h
          subst h
          exact ⟨[], ds, rfl, .inl hc⟩
        · rw [if_neg hc] at h
          exact absurd h List.not_mem_nil
      · obtain ⟨front, back, rfl, hearlier⟩ := ih h
        refine ⟨c :: front, back, rfl, ?_⟩
        rcases hearlier with hmem | ⟨e, he, hname⟩
        · rcases List.mem_append.mp hmem with hmem | hmem
          · exact .inl hmem
          · exact .inr ⟨c, List.mem_cons_self, (List.mem_singleton.mp hmem).symm⟩
        · exact .inr ⟨e, List.mem_cons_of_mem c he, hname⟩

end DoWhile
