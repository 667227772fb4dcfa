import DoWhile.SymbolTable
import Mathlib.Data.List.Nodup
import Mathlib.Data.List.Perm.Basic

/-!
# The cells of a symbol table

A table is sound (`SymbolTable.Sound`) if it lists every name once and has numbered its cells, the
current ones and the replaced ones together, from zero on. The empty table is sound, and definitions
and updates keep a table sound. In a sound table a name leads to its one current cell
(`cell?_eq_some`), and a number to the one cell that bears it (`read?_eq_some`).

A definition retires the cell of its name as it is and leaves every other cell alone; an update
writes into the cell of its name, where it stands.
-/

set_option autoImplicit false

namespace DoWhile.SymbolTable

/-! ## Names -/

/-- The defined names in order. -/
def names (t : SymbolTable) : List String := t.symbols.map (·.name)

/-- A table contains a name exactly if it is among its names. -/
theorem contains_iff (t : SymbolTable) (name : String) :
    t.contains name = true ↔ name ∈ t.names := by
  rw [contains, cell?, List.find?_isSome]
  simp [names, symbols]

/-- There is no cell for a name exactly if it is not among the names. -/
theorem cell?_eq_none_iff (t : SymbolTable) (name : String) :
    t.cell? name = none ↔ name ∉ t.names := by
  rw [← contains_iff, contains]
  simp

/-- A new symbol is put behind the others, in a cell of its own. -/
theorem define_of_new {t : SymbolTable} {s : Symbol} (h : s.name ∉ t.names) :
    t.define s = { t with current := t.current ++ [⟨t.nextId, s⟩] } := by
  have hnone : t.cell? s.name = none := (cell?_eq_none_iff t s.name).mpr h
  simp [define, hnone]

/-- A new symbol is put behind the others. -/
theorem symbols_define_of_new {t : SymbolTable} {s : Symbol} (h : s.name ∉ t.names) :
    (t.define s).symbols = t.symbols ++ [s] := by
  simp [define_of_new h, symbols]

/-- A new name is put behind the others. -/
theorem names_define_of_new {t : SymbolTable} {s : Symbol} (h : s.name ∉ t.names) :
    (t.define s).names = t.names ++ [s.name] := by
  rw [names, symbols_define_of_new h, List.map_append]
  rfl

/-- A symbol whose name is defined is put in the place of the old one, which is retired. -/
theorem define_of_cell? {t : SymbolTable} {s : Symbol} {old : Cell}
    (h : t.cell? s.name = some old) :
    t.define s =
      ⟨t.current.map (fun c => if c.symbol.name == s.name then ⟨t.nextId, s⟩ else c),
        t.replaced ++ [old]⟩ := by
  simp [define, h]

/-- A defined name has a current cell. -/
theorem exists_cell?_of_mem_names {t : SymbolTable} {name : String} (h : name ∈ t.names) :
    ∃ c, t.cell? name = some c := by
  rwa [← contains_iff, contains, Option.isSome_iff_exists] at h

/-- Defining a known name again keeps the names. -/
theorem names_define_of_mem {t : SymbolTable} {s : Symbol} (h : s.name ∈ t.names) :
    (t.define s).names = t.names := by
  obtain ⟨old, hold⟩ := exists_cell?_of_mem_names h
  simp only [define_of_cell? hold, names, symbols, List.map_map]
  apply List.map_congr_left
  intro c _
  by_cases hc : c.symbol.name = s.name <;> simp [hc]

/-- An update keeps the names. -/
theorem names_update (t : SymbolTable) (name : String) (value : Json) :
    (t.update name value).names = t.names := by
  simp only [names, symbols, update, List.map_map]
  apply List.map_congr_left
  intro c _
  by_cases hc : c.symbol.name = name <;> simp [hc]

/-- Cells that are not picked out stay as they are. -/
theorem map_unpicked {cells : List Cell} {pick : Cell → Bool} (f : Cell → Cell)
    (h : ∀ c ∈ cells, ¬ pick c = true) :
    cells.map (fun c => if pick c then f c else c) = cells := by
  calc cells.map (fun c => if pick c then f c else c)
      = cells.map id := List.map_congr_left (fun c hc => if_neg (h c hc))
    _ = cells := List.map_id cells

/-- An update of a name that is not defined changes nothing at all. -/
theorem update_of_new {t : SymbolTable} {name : String} (value : Json) (h : name ∉ t.names) :
    t.update name value = t := by
  have hcells : ∀ c ∈ t.current, ¬ (c.symbol.name == name) = true := by
    intro c hc hname
    apply h
    simp only [names, symbols, List.map_map, List.mem_map]
    exact ⟨c, hc, beq_iff_eq.mp hname⟩
  rw [update, map_unpicked _ hcells]

/-! ## Numbers -/

/-- The numbers of all cells, the current ones before the replaced ones. -/
def numbers (t : SymbolTable) : List Nat := (t.current ++ t.replaced).map (·.id)

/-- Does the table list every name once, and are its cells numbered in turn? -/
structure Sound (t : SymbolTable) : Prop where
  names_nodup : t.names.Nodup
  numbers_perm : t.numbers.Perm (List.range t.nextId)

/-- The empty table is sound. -/
theorem sound_empty : Sound empty where
  names_nodup := List.nodup_nil
  numbers_perm := List.Perm.refl _

/-- No number of a cell is used twice. -/
theorem Sound.numbers_nodup {t : SymbolTable} (ht : t.Sound) : t.numbers.Nodup :=
  ht.numbers_perm.nodup_iff.mpr List.nodup_range

/-- If the keys of the cells are distinct, a search for the key of a cell finds that cell. -/
theorem find?_eq_some_of_nodup {β : Type} [BEq β] [LawfulBEq β] {key : Cell → β}
    {cells : List Cell} (hnodup : (cells.map key).Nodup) {c : Cell} (hc : c ∈ cells) :
    cells.find? (fun d => key d == key c) = some c := by
  cases hfind : cells.find? (fun d => key d == key c) with
  | none =>
      have hne := List.find?_eq_none.mp hfind c hc
      simp at hne
  | some d =>
      have hkey : key d = key c := by simpa using List.find?_some hfind
      rw [List.inj_on_of_nodup_map hnodup (List.mem_of_find?_eq_some hfind) hc hkey]

/-- A current cell is the one that is found by its name. -/
theorem Sound.cell?_eq_some {t : SymbolTable} (ht : t.Sound) {c : Cell} (hc : c ∈ t.current) :
    t.cell? c.symbol.name = some c := by
  have hnodup := ht.names_nodup
  rw [names, symbols, List.map_map] at hnodup
  exact find?_eq_some_of_nodup hnodup hc

/-- A cell is read by its number, also after it was replaced. -/
theorem Sound.read?_eq_some {t : SymbolTable} (ht : t.Sound) {c : Cell}
    (hc : c ∈ t.current ++ t.replaced) : t.read? c.id = some c.symbol := by
  rw [read?, find?_eq_some_of_nodup ht.numbers_nodup hc, Option.map_some]

/-- A cell that is found by a name is current and has that name. -/
theorem mem_current_of_cell? {t : SymbolTable} {name : String} {c : Cell}
    (h : t.cell? name = some c) : c ∈ t.current ∧ c.symbol.name = name :=
  ⟨List.mem_of_find?_eq_some h, by simpa using List.find?_some h⟩

/-- The current cell of a defined name divides the current cells into those in front of it and
those behind it, and none of them bears that name. -/
theorem Sound.split_current {t : SymbolTable} (ht : t.Sound) {name : String} {old : Cell}
    (h : t.cell? name = some old) :
    ∃ front back, t.current = front ++ old :: back ∧
      ∀ c ∈ front ++ back, ¬ (c.symbol.name == name) = true := by
  obtain ⟨hmem, hname⟩ := mem_current_of_cell? h
  obtain ⟨front, back, hcurrent⟩ := List.append_of_mem hmem
  refine ⟨front, back, hcurrent, ?_⟩
  intro c hc hcname
  have hnodup := ht.names_nodup
  rw [names, symbols, List.map_map, hcurrent, List.map_append, List.map_cons,
    List.nodup_middle, ← List.map_append, List.nodup_cons] at hnodup
  apply hnodup.1
  rw [List.mem_map]
  exact ⟨c, hc, (beq_iff_eq.mp hcname).trans hname.symm⟩

/-! ## Definitions and updates keep a table sound -/

/-- Every definition uses one number up. -/
theorem nextId_define (t : SymbolTable) (s : Symbol) : (t.define s).nextId = t.nextId + 1 := by
  cases hcell : t.cell? s.name with
  | none =>
      simp only [define_of_new ((cell?_eq_none_iff t s.name).mp hcell), nextId,
        List.length_append, List.length_singleton]
      omega
  | some old =>
      simp only [define_of_cell? hcell, nextId, List.length_map, List.length_append,
        List.length_singleton]
      omega

/-- A definition brings one new cell, and every other cell keeps its number. -/
theorem Sound.numbers_define {t : SymbolTable} (ht : t.Sound) (s : Symbol) :
    (t.define s).numbers.Perm (t.nextId :: t.numbers) := by
  cases hcell : t.cell? s.name with
  | none =>
      simp only [define_of_new ((cell?_eq_none_iff t s.name).mp hcell), numbers, List.map_append,
        List.map_cons, List.append_assoc, List.singleton_append]
      exact List.perm_middle
  | some old =>
      obtain ⟨front, back, hcurrent, hothers⟩ := ht.split_current hcell
      obtain ⟨-, hold⟩ := mem_current_of_cell? hcell
      have hnew : (t.define s).current = front ++ ⟨t.nextId, s⟩ :: back := by
        simp only [define_of_cell? hcell, hcurrent, List.map_append, List.map_cons, hold,
          beq_self_eq_true, if_true]
        rw [map_unpicked _ (fun c hc => hothers c (List.mem_append_left _ hc)),
          map_unpicked _ (fun c hc => hothers c (List.mem_append_right _ hc))]
      have hreplaced : (t.define s).replaced = t.replaced ++ [old] := by
        rw [define_of_cell? hcell]
      rw [numbers, numbers, hnew, hreplaced, hcurrent, List.perm_iff_count]
      intro id
      simp only [List.map_append, List.map_cons, List.map_nil, List.count_append,
        List.count_cons, List.count_nil]
      omega

/-- A definition keeps the table sound. -/
theorem Sound.define {t : SymbolTable} (ht : t.Sound) (s : Symbol) : (t.define s).Sound where
  names_nodup := by
    by_cases hs : s.name ∈ t.names
    · rw [names_define_of_mem hs]
      exact ht.names_nodup
    · rw [names_define_of_new hs, ← List.concat_eq_append]
      exact ht.names_nodup.concat hs
  numbers_perm := by
    rw [nextId_define, List.range_succ]
    exact (ht.numbers_define s).trans
      ((ht.numbers_perm.cons _).trans (List.perm_append_singleton _ _).symm)

/-- An update keeps the current cells in their places. -/
theorem ids_update (t : SymbolTable) (name : String) (value : Json) :
    (t.update name value).current.map (·.id) = t.current.map (·.id) := by
  simp only [update, List.map_map]
  apply List.map_congr_left
  intro c _
  by_cases hc : c.symbol.name = name <;> simp [hc]

/-- An update keeps the numbers of the cells. -/
theorem numbers_update (t : SymbolTable) (name : String) (value : Json) :
    (t.update name value).numbers = t.numbers := by
  rw [numbers, numbers, List.map_append, List.map_append, ids_update]
  rfl

/-- An update keeps the table sound. -/
theorem Sound.update {t : SymbolTable} (ht : t.Sound) (name : String) (value : Json) :
    (t.update name value).Sound where
  names_nodup := by
    rw [names_update]
    exact ht.names_nodup
  numbers_perm := by
    have hnextId : (t.update name value).nextId = t.nextId := by
      simp [nextId, SymbolTable.update]
    rw [numbers_update, hnextId]
    exact ht.numbers_perm

/-! ## What becomes of a cell -/

/-- A defined symbol lives in the next cell. -/
theorem mem_current_define (t : SymbolTable) (s : Symbol) :
    (⟨t.nextId, s⟩ : Cell) ∈ (t.define s).current := by
  cases hcell : t.cell? s.name with
  | none => simp [define_of_new ((cell?_eq_none_iff t s.name).mp hcell)]
  | some old =>
      obtain ⟨hmem, hold⟩ := mem_current_of_cell? hcell
      rw [define_of_cell? hcell]
      exact List.mem_map.mpr ⟨old, hmem, by simp [hold]⟩

/-- A definition keeps the current cells of all other names. -/
theorem mem_current_define_of_ne {t : SymbolTable} {s : Symbol} {c : Cell} (hc : c ∈ t.current)
    (hne : c.symbol.name ≠ s.name) : c ∈ (t.define s).current := by
  cases hcell : t.cell? s.name with
  | none =>
      rw [define_of_new ((cell?_eq_none_iff t s.name).mp hcell)]
      exact List.mem_append_left _ hc
  | some old =>
      rw [define_of_cell? hcell]
      exact List.mem_map.mpr ⟨c, hc, by simp [hne]⟩

/-- A definition retires the cell of its name with the content that it has. -/
theorem Sound.mem_replaced_define {t : SymbolTable} (ht : t.Sound) {s : Symbol} {c : Cell}
    (hc : c ∈ t.current) (hname : c.symbol.name = s.name) : c ∈ (t.define s).replaced := by
  have hcell := ht.cell?_eq_some hc
  rw [hname] at hcell
  rw [define_of_cell? hcell]
  exact List.mem_append_right _ (List.mem_singleton_self c)

/-- A definition keeps the cells that were replaced before. -/
theorem mem_replaced_define_of_mem {t : SymbolTable} {c : Cell} (hc : c ∈ t.replaced)
    (s : Symbol) : c ∈ (t.define s).replaced := by
  cases hcell : t.cell? s.name with
  | none => rwa [define_of_new ((cell?_eq_none_iff t s.name).mp hcell)]
  | some old =>
      rw [define_of_cell? hcell]
      exact List.mem_append_left _ hc

/-- An update writes into the cell of its name, and into no other cell. -/
theorem mem_current_update {t : SymbolTable} {c : Cell} (hc : c ∈ t.current) (name : String)
    (value : Json) :
    (if c.symbol.name = name then ⟨c.id, { c.symbol with value := value }⟩ else c) ∈
      (t.update name value).current := by
  apply List.mem_map.mpr
  refine ⟨c, hc, ?_⟩
  by_cases hname : c.symbol.name = name <;> simp [hname]

/-! ## Reading cells -/

/-- A number is looked for among the current cells first. -/
theorem read?_eq_or (t : SymbolTable) (id : Nat) :
    t.read? id = ((t.current.find? (fun c => c.id == id)).or
      (t.replaced.find? (fun c => c.id == id))).map (·.symbol) := by
  rw [read?, List.find?_append]

/-- The cell that a name leads to has the number of a current cell exactly if it is that cell. -/
theorem Sound.cell?_map_id_iff {t : SymbolTable} (ht : t.Sound) {c : Cell} (hc : c ∈ t.current)
    (name : String) : (t.cell? name).map (·.id) = some c.id ↔ c.symbol.name = name := by
  constructor
  · intro hid
    obtain ⟨d, hcell, hdid⟩ := Option.map_eq_some_iff.mp hid
    obtain ⟨hd, hname⟩ := mem_current_of_cell? hcell
    have hdc : d = c := List.inj_on_of_nodup_map ht.numbers_nodup (List.mem_append_left _ hd)
      (List.mem_append_left _ hc) hdid
    rw [← hdc, hname]
  · intro hname
    rw [← hname, ht.cell?_eq_some hc, Option.map_some]

/-- An update changes the value of the cell of its name, and no other cell. -/
theorem find?_current_update (t : SymbolTable) (name : String) (value : Json) (id : Nat) :
    (t.update name value).current.find? (fun c => c.id == id) =
      (t.current.find? (fun c => c.id == id)).map fun c =>
        if c.symbol.name == name then ⟨c.id, { c.symbol with value := value }⟩ else c := by
  rw [update, List.find?_map]
  congr 2
  funext c
  by_cases hc : c.symbol.name = name <;> simp [hc]

/-- An update changes the value in the current cell of its name, and no other cell. -/
theorem Sound.read?_update {t : SymbolTable} (ht : t.Sound) (name : String) (value : Json)
    (id : Nat) :
    (t.update name value).read? id =
      if (t.cell? name).map (·.id) = some id then
        (t.read? id).map fun s => { s with value := value }
      else t.read? id := by
  have hreplaced : (t.update name value).replaced = t.replaced := rfl
  rw [read?_eq_or, read?_eq_or, find?_current_update, hreplaced]
  cases hcurrent : t.current.find? (fun c => c.id == id) with
  | none =>
      have hother : (t.cell? name).map (·.id) ≠ some id := by
        intro hid
        obtain ⟨c, hcell, hcid⟩ := Option.map_eq_some_iff.mp hid
        have hne := List.find?_eq_none.mp hcurrent c (mem_current_of_cell? hcell).1
        exact hne (beq_iff_eq.mpr hcid)
      rw [if_neg hother]
      rfl
  | some c =>
      have hcond := ht.cell?_map_id_iff (List.mem_of_find?_eq_some hcurrent) name
      have hcid : c.id = id := by simpa using List.find?_some hcurrent
      rw [hcid] at hcond
      by_cases hname : c.symbol.name = name
      · rw [if_pos (hcond.mpr hname)]
        simp [hname]
      · rw [if_neg (mt hcond.mp hname)]
        simp [hname]

end DoWhile.SymbolTable
