import DoWhile.Proofs.SymbolTable.Cells
import DoWhile.SymbolTable.Session
import Mathlib.Data.List.Induction

/-!
# Histories of symbol tables

What a table answers after some calls can be read off the calls. The names are those of the
definitions, each in the place of its first one. A symbol that was handed out is revised by the
calls that come after (`Symbol.revised`): it takes the value of every update of its name, until its
name is defined again.

The step lemmas say what one call makes of a cell: the call that defines its name retires it
(`mem_replaced_act_of_defines`), every other call revises it in its place (`mem_current_act`), and
nothing happens to it once it is retired (`mem_replaced_act`). By induction a cell holds its symbol
revised by all the calls since it was made (`Sound.cells_actAll`), and `historyLaw` gathers what
follows for the answers.
-/

set_option autoImplicit false

namespace DoWhile

namespace SymbolTable.Call

/-- The symbol that a call defines. -/
def defined? : Call → Option Symbol
  | define s => some s
  | _ => none

/-- Does the call define the name? -/
def defines (name : String) : Call → Bool
  | define s => s.name == name
  | _ => false

/-- The value that a call gives to the name in an update. -/
def given? (name : String) : Call → Option Json
  | update n value => if n = name then some value else none
  | _ => none

/-- The table after a call. -/
def act (t : SymbolTable) : Call → SymbolTable
  | define s => t.define s
  | update name value => t.update name value
  | _ => t

/-- The names that the calls define, one for each definition. -/
def definedNames (calls : List Call) : List String := (calls.filterMap defined?).map (·.name)

end SymbolTable.Call

open SymbolTable (Call)

/-- A symbol that was handed out, as it is some calls later: it has the last value that an update
gave to its name before its name was defined again. -/
def Symbol.revised (s : Symbol) (calls : List Call) : Symbol :=
  { s with
    value := ((calls.takeWhile (fun call => !call.defines s.name)).filterMap
      (·.given? s.name)).getLastD s.value }

/-! ## Revising a symbol call by call -/

/-- No calls revise nothing. -/
theorem Symbol.revised_nil (s : Symbol) : s.revised [] = s := rfl

/-- A symbol is not revised any more once its name is defined again. -/
theorem Symbol.revised_cons_of_defines {s : Symbol} {call : Call}
    (h : call.defines s.name = true) (calls : List Call) : s.revised (call :: calls) = s := by
  simp [revised, h]

/-- A symbol is revised call by call until its name is defined again. -/
theorem Symbol.revised_cons {s : Symbol} {call : Call} (h : call.defines s.name = false)
    (calls : List Call) : s.revised (call :: calls) = (s.revised [call]).revised calls := by
  cases hgiven : call.given? s.name with
  | none => simp only [revised, List.takeWhile_cons, h, hgiven, Bool.not_false, if_true,
      List.filterMap_cons, List.takeWhile_nil, List.filterMap_nil, List.getLastD_nil]
  | some value => simp only [revised, List.takeWhile_cons, h, hgiven, Bool.not_false, if_true,
      List.filterMap_cons, List.takeWhile_nil, List.filterMap_nil, List.getLastD_nil,
      List.getLastD_cons]

namespace SymbolTable

namespace Call

/-- The names that calls define are those of the first and then those of the rest. -/
theorem definedNames_append (calls more : List Call) :
    definedNames (calls ++ more) = definedNames calls ++ definedNames more := by
  rw [definedNames, List.filterMap_append, List.map_append, definedNames, definedNames]

/-- A call defines a name exactly if it is among the names that it defines. -/
theorem defines_iff (call : Call) (name : String) :
    call.defines name = true ↔ name ∈ definedNames [call] := by
  cases call with
  | define s =>
      have hdefined : definedNames [.define s] = [s.name] := rfl
      rw [hdefined, List.mem_singleton, defines, beq_iff_eq, eq_comm]
  | _ => exact iff_of_false Bool.false_ne_true List.not_mem_nil

end Call

open Call (definedNames)

/-- The table after some calls. -/
def actAll (t : SymbolTable) (calls : List Call) : SymbolTable := calls.foldl Call.act t

/-- The table after calls is reached call by call. -/
theorem actAll_cons (t : SymbolTable) (call : Call) (calls : List Call) :
    t.actAll (call :: calls) = (call.act t).actAll calls := rfl

/-! ## One call -/

/-- A call keeps the table sound. -/
theorem Sound.act {t : SymbolTable} (ht : t.Sound) (call : Call) : (call.act t).Sound := by
  cases call with
  | define s => exact ht.define s
  | update name value => exact ht.update name value
  | _ => exact ht

/-- A call that does not define the name of a cell revises the cell in its place. -/
theorem mem_current_act {t : SymbolTable} {c : Cell} (hc : c ∈ t.current) {call : Call}
    (h : call.defines c.symbol.name = false) :
    ⟨c.id, c.symbol.revised [call]⟩ ∈ (call.act t).current := by
  cases call with
  | define s =>
      have hsame : c.symbol.revised [.define s] = c.symbol := by
        simp [Symbol.revised, h, Call.given?]
      rw [Call.defines, beq_eq_false_iff_ne] at h
      rw [hsame]
      exact mem_current_define_of_ne hc h.symm
  | update name value =>
      have hupdated := mem_current_update hc name value
      by_cases hname : name = c.symbol.name
      · simpa [Symbol.revised, Call.defines, Call.given?, hname, Call.act] using hupdated
      · simpa [Symbol.revised, Call.defines, Call.given?, hname, Ne.symm hname, Call.act]
          using hupdated
  | _ => exact hc

/-- The call that defines the name of a cell retires the cell. -/
theorem Sound.mem_replaced_act_of_defines {t : SymbolTable} (ht : t.Sound) {c : Cell}
    (hc : c ∈ t.current) {call : Call} (h : call.defines c.symbol.name = true) :
    c ∈ (call.act t).replaced := by
  cases call with
  | define s => exact ht.mem_replaced_define hc (beq_iff_eq.mp h).symm
  | _ => cases h

/-- A call keeps the cells that were replaced before. -/
theorem mem_replaced_act {t : SymbolTable} {c : Cell} (hc : c ∈ t.replaced) (call : Call) :
    c ∈ (call.act t).replaced := by
  cases call with
  | define s => exact mem_replaced_define_of_mem hc s
  | _ => exact hc

/-! ## Many calls -/

/-- Calls keep the table sound. -/
theorem Sound.actAll {t : SymbolTable} (ht : t.Sound) (calls : List Call) :
    (t.actAll calls).Sound := by
  induction calls generalizing t with
  | nil => exact ht
  | cons call calls ih => exact ih (ht.act call)

/-- Calls keep the cells that were replaced before. -/
theorem mem_replaced_actAll {t : SymbolTable} {c : Cell} (hc : c ∈ t.replaced)
    (calls : List Call) : c ∈ (t.actAll calls).replaced := by
  induction calls generalizing t with
  | nil => exact hc
  | cons call calls ih => exact ih (mem_replaced_act hc call)

/-- A current cell holds its symbol revised by the calls that follow. It is current as long as its
name is not defined again, and retired from then on. -/
theorem Sound.cells_actAll {t : SymbolTable} (ht : t.Sound) {c : Cell} (hc : c ∈ t.current)
    (calls : List Call) :
    ⟨c.id, c.symbol.revised calls⟩ ∈
      if c.symbol.name ∈ definedNames calls then (t.actAll calls).replaced
      else (t.actAll calls).current := by
  induction calls generalizing t c with
  | nil => simpa [definedNames, SymbolTable.actAll, Symbol.revised_nil] using hc
  | cons call calls ih =>
      rw [← List.singleton_append, Call.definedNames_append, List.singleton_append, actAll_cons]
      cases hdefines : call.defines c.symbol.name with
      | true =>
          have hmem := (Call.defines_iff call c.symbol.name).mp hdefines
          rw [Symbol.revised_cons_of_defines hdefines, if_pos (List.mem_append_left _ hmem)]
          exact mem_replaced_actAll (ht.mem_replaced_act_of_defines hc hdefines) calls
      | false =>
          have hnot : c.symbol.name ∉ definedNames [call] := by
            rw [← Call.defines_iff, hdefines]
            exact Bool.false_ne_true
          have hrest := ih (ht.act call) (mem_current_act hc hdefines)
          rw [Symbol.revised_cons hdefines]
          simpa [hnot, Symbol.revised] using hrest

/-- A cell can be read at any later time, with its symbol revised. -/
theorem Sound.read?_actAll {t : SymbolTable} (ht : t.Sound) {c : Cell} (hc : c ∈ t.current)
    (calls : List Call) : (t.actAll calls).read? c.id = some (c.symbol.revised calls) := by
  have hcells := ht.cells_actAll hc calls
  apply (ht.actAll calls).read?_eq_some (c := ⟨c.id, c.symbol.revised calls⟩)
  by_cases hname : c.symbol.name ∈ definedNames calls
  · rw [if_pos hname] at hcells
    exact List.mem_append_right _ hcells
  · rw [if_neg hname] at hcells
    exact List.mem_append_left _ hcells

/-- Its name leads to the same cell as long as it is not defined again. -/
theorem Sound.cell?_actAll {t : SymbolTable} (ht : t.Sound) {c : Cell} (hc : c ∈ t.current)
    {calls : List Call} (h : c.symbol.name ∉ definedNames calls) :
    (t.actAll calls).cell? c.symbol.name = some ⟨c.id, c.symbol.revised calls⟩ := by
  have hcells := ht.cells_actAll hc calls
  rw [if_neg h] at hcells
  exact (ht.actAll calls).cell?_eq_some hcells

/-- An item behind a list counts among the different ones if it is not in the list. -/
theorem eraseDups_concat (l : List String) (a : String) :
    (l ++ [a]).eraseDups = if a ∈ l then l.eraseDups else l.eraseDups ++ [a] := by
  rw [List.eraseDups_append]
  by_cases ha : a ∈ l <;> simp [List.removeAll, ha, List.eraseDups_cons]

/-- The names of a table are those of the definitions so far, each in the place of its first. -/
theorem names_actAll (calls : List Call) :
    (empty.actAll calls).names = (definedNames calls).eraseDups := by
  induction calls using List.reverseRecOn with
  | nil => rfl
  | append_singleton calls call ih =>
      have hstep : empty.actAll (calls ++ [call]) = call.act (empty.actAll calls) := by
        rw [actAll, List.foldl_concat, actAll]
      rw [hstep, Call.definedNames_append]
      cases call with
      | define s =>
          have hdefined : definedNames [.define s] = [s.name] := rfl
          have hmem : s.name ∈ (empty.actAll calls).names ↔ s.name ∈ definedNames calls := by
            rw [ih, List.mem_eraseDups]
          rw [hdefined, eraseDups_concat, Call.act]
          by_cases hs : s.name ∈ definedNames calls
          · rw [names_define_of_mem (hmem.mpr hs), if_pos hs, ih]
          · rw [names_define_of_new (mt hmem.mp hs), if_neg hs, ih]
      | update name value =>
          have hdefined : definedNames [.update name value] = [] := rfl
          rw [hdefined, List.append_nil, Call.act, names_update, ih]
      | _ => exact ih.trans (congrArg List.eraseDups (List.append_nil _).symm)

/-! ## Histories -/

namespace History

/-- The history after some more calls. -/
def afterAll (h : History) (calls : List Call) : History :=
  calls.foldl (fun h call => (h.run call).2) h

/-- The history of some calls on a new table. -/
def ofCalls (calls : List Call) : History := afterAll {} calls

/-- The answer to a call that is made next. -/
def answer (h : History) (call : Call) : Answer := (h.run call).1

/-- Histories can be continued. -/
theorem afterAll_append (h : History) (calls more : List Call) :
    h.afterAll (calls ++ more) = (h.afterAll calls).afterAll more := by
  rw [afterAll, List.foldl_append, afterAll, afterAll]

/-- The runs of some calls and one more are those of the first calls and then the last one's. -/
theorem runAll_concat (h : History) (calls : List Call) (call : Call) :
    h.runAll (calls ++ [call]) = h.runAll calls ++ [(h.afterAll calls).run call] := by
  induction calls generalizing h with
  | nil => rfl
  | cons first calls ih =>
      rw [List.cons_append, runAll, ih, runAll, List.cons_append]
      rfl

/-- The table of a history changes as the call says. -/
theorem table_run (h : History) (call : Call) : (h.run call).2.table = call.act h.table := by
  cases call <;> rfl

/-- The table of a history is reached call by call. -/
theorem table_afterAll (h : History) (calls : List Call) :
    (h.afterAll calls).table = h.table.actAll calls := by
  induction calls generalizing h with
  | nil => rfl
  | cons call calls ih => rw [actAll_cons, ← table_run, ← ih, afterAll, List.foldl_cons, afterAll]

/-- A call hands out one cell or none, and what was handed out before stays where it was. -/
theorem exists_handed_run (h : History) (call : Call) :
    ∃ id?, (h.run call).2.handed = h.handed ++ [id?] := by
  cases call <;> exact ⟨_, rfl⟩

/-- A history hands out one entry for each call. -/
theorem exists_handed_afterAll (h : History) (calls : List Call) :
    ∃ ids, ids.length = calls.length ∧ (h.afterAll calls).handed = h.handed ++ ids := by
  induction calls generalizing h with
  | nil => exact ⟨[], rfl, (List.append_nil _).symm⟩
  | cons call calls ih =>
      obtain ⟨id?, hrun⟩ := exists_handed_run h call
      obtain ⟨ids, hlength, hids⟩ := ih (h.run call).2
      refine ⟨id? :: ids, by rw [List.length_cons, hlength, List.length_cons], ?_⟩
      rw [hrun, List.append_assoc, List.singleton_append] at hids
      exact hids

/-- The table of a history is sound. -/
theorem sound_ofCalls (calls : List Call) : (ofCalls calls).table.Sound := by
  rw [ofCalls, table_afterAll]
  exact sound_empty.actAll calls

/-- The names of the table are the defined ones, each once and in the order of their first
definition. -/
theorem names_ofCalls (calls : List Call) :
    (ofCalls calls).table.names = (definedNames calls).eraseDups := by
  rw [ofCalls, table_afterAll]
  exact names_actAll calls

/-- A name is in the table exactly if a call defined it. -/
theorem mem_names_ofCalls (calls : List Call) (name : String) :
    name ∈ (ofCalls calls).table.names ↔ name ∈ definedNames calls := by
  rw [names_ofCalls, List.mem_eraseDups]

/-- The table contains exactly the defined names. -/
theorem contains_ofCalls (calls : List Call) (name : String) :
    (ofCalls calls).table.contains name = decide (name ∈ definedNames calls) := by
  rw [Bool.eq_iff_iff, contains_iff, mem_names_ofCalls, decide_eq_true_eq]

/-- The size of the table is the number of different names that were defined. -/
theorem size_ofCalls (calls : List Call) :
    (ofCalls calls).table.size = (definedNames calls).eraseDups.length := by
  rw [← names_ofCalls, names, symbols, List.length_map, List.length_map, size]

/-- What a later call finds in the cell that the call between `before` and `later` handed out. -/
theorem held_ofCalls (before later : List Call) (call : Call) {id? : Option Nat}
    (h : ((ofCalls before).run call).2.handed = (ofCalls before).handed ++ [id?]) :
    (ofCalls (before ++ call :: later)).answer (.held before.length) =
      .symbol (id?.bind (((ofCalls before).run call).2.table.actAll later).read?) := by
  obtain ⟨ids, hlength, hids⟩ := exists_handed_afterAll {} before
  obtain ⟨more, -, hmore⟩ := exists_handed_afterAll ((ofCalls before).run call).2 later
  have hhistory : ofCalls (before ++ call :: later) =
      ((ofCalls before).run call).2.afterAll later := by
    rw [ofCalls, afterAll_append]
    rfl
  have hbefore : (ofCalls before).handed.length = before.length := by
    rw [ofCalls, hids, List.length_append, hlength]
    exact Nat.zero_add _
  have hhanded : (ofCalls (before ++ call :: later)).handed.getD before.length none = id? := by
    rw [hhistory, hmore, h, List.append_assoc, ← hbefore]
    simp
  rw [answer, run, hhanded, hhistory, table_afterAll]

/-- The cell that a definition hands out holds the symbol revised by the calls after it. -/
theorem held_define (before later : List Call) (s : Symbol) :
    (ofCalls (before ++ .define s :: later)).answer (.held before.length) =
      .symbol (some (s.revised later)) := by
  have hsound := (sound_ofCalls before).define s
  have hnew := mem_current_define (ofCalls before).table s
  have hid : (((ofCalls before).table.define s).cell? s.name).map (·.id) =
      some (ofCalls before).table.nextId := congrArg _ (hsound.cell?_eq_some hnew)
  rw [held_ofCalls before later (.define s) rfl, hid]
  exact congrArg _ (hsound.read?_actAll hnew later)

/-- The cell that a lookup hands out holds the symbol revised by the calls after it. -/
theorem held_lookup (before later : List Call) (name : String) :
    (ofCalls (before ++ .lookup name :: later)).answer (.held before.length) =
      .symbol (((ofCalls before).table.lookup name).map (·.revised later)) := by
  rw [held_ofCalls before later (.lookup name) rfl, lookup]
  cases hcell : (ofCalls before).table.cell? name with
  | none => rfl
  | some c =>
      obtain ⟨hmem, -⟩ := mem_current_of_cell? hcell
      exact congrArg _ ((sound_ofCalls before).read?_actAll hmem later)

/-- Without another definition of its name, a defined symbol is found revised. -/
theorem lookup_ofCalls (before later : List Call) (s : Symbol)
    (h : s.name ∉ definedNames later) :
    (ofCalls (before ++ .define s :: later)).table.lookup s.name = some (s.revised later) := by
  have hsound := (sound_ofCalls before).define s
  have hnew := mem_current_define (ofCalls before).table s
  have htable : (ofCalls (before ++ .define s :: later)).table =
      ((ofCalls before).table.define s).actAll later := by
    rw [ofCalls, afterAll_append, table_afterAll]
    rfl
  rw [htable, lookup, hsound.cell?_actAll hnew h, Option.map_some]

/-- What a table answers after the calls `calls`, in terms of these calls. -/
structure Law (calls : List Call) : Prop where
  runs (call : Call) : runAll {} (calls ++ [call]) = runAll {} calls ++ [(ofCalls calls).run call]
  symbols : ∃ ss, (ofCalls calls).answer .symbols = .symbols ss ∧
    ss.map (·.name) = (definedNames calls).eraseDups ∧
    ∀ s ∈ ss, (ofCalls calls).answer (.lookup s.name) = .symbol (some s)
  size : (ofCalls calls).answer .size = .count (definedNames calls).eraseDups.length
  isDeclared (name : String) :
    (ofCalls calls).answer (.isDeclared name) = .truth (decide (name ∈ definedNames calls))
  contains {key : Json} (hkey : key.unhashable? = none) : (ofCalls calls).answer (.contains key) =
    .truth (key.text?.any fun name => decide (name ∈ definedNames calls))
  contains_unhashable {key : Json} {className : String} (hkey : key.unhashable? = some className) :
    (ofCalls calls).answer (.contains key) = .fault (.unhashable className)
  lookup_none_iff (name : String) :
    (ofCalls calls).answer (.lookup name) = .symbol none ↔ name ∉ definedNames calls
  lookup_latest {before later : List Call} {s : Symbol}
    (hcalls : calls = before ++ .define s :: later) (hlatest : s.name ∉ definedNames later) :
    (ofCalls calls).answer (.lookup s.name) = .symbol (some (s.revised later))
  define (s : Symbol) : (ofCalls calls).answer (.define s) = .symbol (some s)
  update (name : String) (value : Json) :
    (ofCalls calls).answer (.update name value) = .truth (decide (name ∈ definedNames calls))
  update_unknown {name : String} (value : Json) (hname : name ∉ definedNames calls) :
    ((ofCalls calls).run (.update name value)).2.table = (ofCalls calls).table
  update_places (name : String) (value : Json) :
    ((ofCalls calls).run (.update name value)).2.table.current.map (·.id) =
      (ofCalls calls).table.current.map (·.id)
  update_cells (name : String) (value : Json) (id : Nat) :
    ((ofCalls calls).run (.update name value)).2.table.read? id =
      if ((ofCalls calls).table.cell? name).map (·.id) = some id then
        ((ofCalls calls).table.read? id).map fun s => { s with value := value }
      else (ofCalls calls).table.read? id
  held_define {before later : List Call} {s : Symbol}
    (hcalls : calls = before ++ .define s :: later) :
    (ofCalls calls).answer (.held before.length) = .symbol (some (s.revised later))
  held_lookup {before later : List Call} {name : String} {found : Option Symbol}
    (hcalls : calls = before ++ .lookup name :: later)
    (hfound : (ofCalls before).answer (.lookup name) = .symbol found) :
    (ofCalls calls).answer (.held before.length) = .symbol (found.map (·.revised later))

/-- **A table answers as its history says.** Whatever calls were made on a new table, the names are
those of the definitions in the order of the first ones, a name is found with its latest definition
and the latest update since, an update writes into the current cell of its name and nowhere else,
and a symbol that was handed out follows the updates of its name until the next definition. -/
theorem law_ofCalls (calls : List Call) : Law calls where
  runs call := runAll_concat {} calls call
  symbols := by
    refine ⟨(ofCalls calls).table.symbols, rfl, names_ofCalls calls, ?_⟩
    intro s hs
    obtain ⟨c, hc, rfl⟩ := List.mem_map.mp hs
    exact congrArg Answer.symbol (congrArg _ ((sound_ofCalls calls).cell?_eq_some hc))
  size := congrArg Answer.count (size_ofCalls calls)
  isDeclared name := congrArg Answer.truth (contains_ofCalls calls name)
  contains := by
    intro key hkey
    rw [answer, run, hkey]
    apply congrArg Answer.truth
    cases key.text? with
    | none => rfl
    | some name => exact contains_ofCalls calls name
  contains_unhashable := by
    intro key className hkey
    rw [answer, run, hkey]
    rfl
  lookup_none_iff name := by
    rw [← mem_names_ofCalls, ← cell?_eq_none_iff, answer, run, Answer.symbol.injEq, lookup,
      Option.map_eq_none_iff]
  lookup_latest := by
    intro before later s hcalls hlatest
    rw [hcalls]
    exact congrArg Answer.symbol (lookup_ofCalls before later s hlatest)
  define s := by
    have hcell := ((sound_ofCalls calls).define s).cell?_eq_some (mem_current_define _ s)
    exact congrArg Answer.symbol (congrArg _ hcell)
  update name value := congrArg Answer.truth (contains_ofCalls calls name)
  update_unknown := by
    intro name value hname
    exact update_of_new value (mt (mem_names_ofCalls calls name).mp hname)
  update_places name value := ids_update _ name value
  update_cells name value id := (sound_ofCalls calls).read?_update name value id
  held_define := by
    intro before later s hcalls
    rw [hcalls, held_define]
  held_lookup := by
    intro before later name found hcalls hfound
    have hlookup : (ofCalls before).table.lookup name = found := by
      rw [answer, run, Answer.symbol.injEq] at hfound
      exact hfound
    rw [hcalls, held_lookup, hlookup]

/-- A symbol that was looked up keeps the value that it had when its name was defined again. -/
theorem law_ofCalls_definedAgain :
    (ofCalls [.define ⟨"a", "int", .null, ⟨1, 5⟩⟩, .lookup "a", .update "a" (.integer 1),
      .define ⟨"a", "int", .null, ⟨2, 5⟩⟩, .update "a" (.integer 2)]).answer (.held 1) =
      .symbol (some ⟨"a", "int", .integer 1, ⟨1, 5⟩⟩) := by
  have hcalls : [.define ⟨"a", "int", .null, ⟨1, 5⟩⟩, .lookup "a", .update "a" (.integer 1),
      .define ⟨"a", "int", .null, ⟨2, 5⟩⟩, .update "a" (.integer 2)] =
      [.define ⟨"a", "int", .null, ⟨1, 5⟩⟩] ++ Call.lookup "a" :: [.update "a" (.integer 1),
        .define ⟨"a", "int", .null, ⟨2, 5⟩⟩, .update "a" (.integer 2)] := rfl
  exact (law_ofCalls _).held_lookup hcalls rfl

end History

end SymbolTable

end DoWhile
