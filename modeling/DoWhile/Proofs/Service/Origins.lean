import DoWhile.Service.Origins
import Mathlib.Data.List.TakeWhile

/-!
# The allowed origins of a setting

A list of origins is in canonical form if each of them is an origin proper: not empty, without a
comma, and without white space at its ends (`IsOrigin`). Every setting gives such a list, and the
list written with commas gives itself again. The other way round, a list in canonical form may be
spaced out: its origins padded with white space, and empty or blank places put anywhere between the
commas (`Spaced`). A setting that is spaced out so gives the list back
(`allowedOrigins_canonical`).

Of white space nothing is used but that the comma is none.
-/

set_option autoImplicit false

namespace DoWhile

namespace Text

/-! ## Trimming -/

variable {p : Char → Bool} {cs : List Char}

/-- The text neither begins nor ends with a character of the class. -/
structure Tight (p : Char → Bool) (cs : List Char) : Prop where
  head : ∀ c ∈ cs.head?, p c = false
  last : ∀ c ∈ cs.getLast?, p c = false

/-- A text that does not begin with a character of the class loses nothing at its front. -/
theorem dropWhile_eq_self (h : ∀ c ∈ cs.head?, p c = false) : cs.dropWhile p = cs := by
  cases cs with
  | nil => rfl
  | cons c cs => rw [List.dropWhile_cons_of_neg (by simp [h c rfl])]

/-- What is left after dropping a class of characters does not begin with one of them. -/
theorem head?_dropWhile {c : Char} (hc : c ∈ (cs.dropWhile p).head?) : p c = false := by
  have hhead := List.head?_dropWhile_not p cs
  rw [Option.mem_def.mp hc] at hhead
  exact hhead

/-- A tight text stays as it is when it is trimmed. -/
theorem Tight.trimBy_eq_self (h : Tight p cs) : trimBy p cs = cs := by
  have hlast : ∀ c ∈ cs.reverse.head?, p c = false := by
    rw [List.head?_reverse]
    exact h.last
  rw [trimBy, dropWhile_eq_self h.head, dropWhile_eq_self hlast, List.reverse_reverse]

/-- A trimmed text is a front part of the text without its front of the class. -/
theorem trimBy_isPrefix_dropWhile : trimBy p cs <+: cs.dropWhile p := by
  have hsuffix := List.dropWhile_suffix p (l := (cs.dropWhile p).reverse)
  rw [← List.reverse_prefix, List.reverse_reverse] at hsuffix
  exact hsuffix

/-- Trimming takes nothing but the ends. -/
theorem mem_of_mem_trimBy {c : Char} (hc : c ∈ trimBy p cs) : c ∈ cs :=
  (List.dropWhile_suffix p).subset (trimBy_isPrefix_dropWhile.subset hc)

/-- What is trimmed is tight. -/
theorem tight_trimBy (p : Char → Bool) (cs : List Char) : Tight p (trimBy p cs) := by
  constructor
  · intro c hc
    obtain ⟨rest, hrest⟩ : trimBy p cs <+: cs.dropWhile p := trimBy_isPrefix_dropWhile
    have hhead : c ∈ (cs.dropWhile p).head? := by
      rw [← hrest, List.head?_append, Option.mem_def.mp hc]
      rfl
    exact head?_dropWhile hhead
  · intro c hc
    rw [trimBy, List.getLast?_reverse] at hc
    exact head?_dropWhile hc

/-- Characters of the class in front of a text are trimmed away. -/
theorem trimBy_append_left {left : List Char} (hleft : ∀ c ∈ left, p c = true) :
    trimBy p (left ++ cs) = trimBy p cs := by
  rw [trimBy, List.dropWhile_append_of_pos hleft]
  rfl

/-- Characters of the class behind a text are trimmed away. -/
theorem trimBy_append_right {right : List Char} (hright : ∀ c ∈ right, p c = true) :
    trimBy p (cs ++ right) = trimBy p cs := by
  have hreverse : ∀ c ∈ right.reverse, p c = true := fun c hc => hright c (List.mem_reverse.mp hc)
  have hdrop : right.dropWhile p = [] := List.dropWhile_eq_nil_iff.mpr hright
  rw [trimBy, trimBy, List.dropWhile_append]
  by_cases hnil : (cs.dropWhile p).isEmpty = true
  · rw [if_pos hnil, hdrop, List.isEmpty_iff.mp hnil]
  · rw [if_neg hnil, List.reverse_append, List.dropWhile_append_of_pos hreverse]

/-- Nothing is left of a text of the class. -/
theorem trimBy_eq_nil (hcs : ∀ c ∈ cs, p c = true) : trimBy p cs = [] := by
  rw [← List.append_nil cs, trimBy_append_left hcs]
  rfl

/-- A tight text is what is left of it after padding. -/
theorem Tight.trimBy_padded {left right : List Char} (h : Tight p cs)
    (hleft : ∀ c ∈ left, p c = true) (hright : ∀ c ∈ right, p c = true) :
    trimBy p (left ++ cs ++ right) = cs := by
  rw [trimBy_append_right hright, trimBy_append_left hleft, h.trimBy_eq_self]

/-- The comma is no white space. -/
theorem isSpace_comma : isSpace ',' = false := by decide

end Text

/-! ## Places between commas -/

/-- No place between two separators holds one. -/
theorem notMem_of_mem_splitOn {α : Type} [DecidableEq α] {a : α} {xs ys : List α}
    (hys : ys ∈ xs.splitOn a) : a ∉ ys := by
  induction xs generalizing ys with
  | nil =>
      obtain rfl : ys = [] := by simpa using hys
      exact List.not_mem_nil
  | cons x xs ih =>
      rw [List.splitOn_cons_eq_if_modifyHead] at hys
      by_cases hx : (x == a) = true
      · rw [if_pos hx] at hys
        rcases List.mem_cons.mp hys with rfl | hys
        · exact List.not_mem_nil
        · exact ih hys
      · rw [if_neg hx] at hys
        obtain ⟨zs, zss, hsplit⟩ := List.exists_cons_of_ne_nil (List.splitOn_ne_nil a xs)
        rw [hsplit, List.modifyHead_cons] at hys
        rcases List.mem_cons.mp hys with rfl | hys
        · -- the first place begins with `x`, which is no separator
          have hzs : a ∉ zs := ih (by rw [hsplit]; exact List.mem_cons_self)
          have hne : a ≠ x := fun heq => hx (by rw [heq, beq_self_eq_true])
          exact List.not_mem_cons_of_ne_of_not_mem hne hzs
        · exact ih (by rw [hsplit]; exact List.mem_cons_of_mem zs hys)

namespace Service

open Text

/-- An origin as a list of origins holds it. -/
structure IsOrigin (o : String) : Prop where
  ne_empty : o ≠ ""
  noComma : ',' ∉ o.toList
  tight : Tight isSpace o.toList

/-- The texts between the commas of a setting, and the origins that they list: some of the texts are
origins padded with white space, and all others are blank. -/
inductive Spaced : List String → List String → Prop
  | nil : Spaced [] []
  | blank {gap : String} {places listed : List String} (hgap : ∀ c ∈ gap.toList, isSpace c = true)
      (h : Spaced places listed) : Spaced (gap :: places) listed
  | origin {left o right : String} {places listed : List String}
      (hleft : ∀ c ∈ left.toList, isSpace c = true) (ho : IsOrigin o)
      (hright : ∀ c ∈ right.toList, isSpace c = true) (h : Spaced places listed) :
      Spaced ((left ++ o ++ right) :: places) (o :: listed)

/-! ## What a setting lists -/

/-- What is left between the commas of a setting when white space is taken away. -/
def entries (cs : List Char) : List (List Char) :=
  ((cs.splitOn ',').map trim).filter (fun o => o != [])

/-- A setting without entries lists any origin. -/
theorem origins_of_nil {setting : String} (h : entries setting.toList = []) :
    origins setting = [anyOrigin] := by
  unfold entries at h
  rw [origins, h]

/-- A setting with entries lists them. -/
theorem origins_of_ne_nil {setting : String} (h : entries setting.toList ≠ []) :
    origins setting = (entries setting.toList).map String.ofList := by
  unfold entries at h ⊢
  rw [origins]
  split
  · next hnil => exact absurd hnil h
  · rfl

/-- An entry of a setting is an origin. -/
theorem isOrigin_of_mem_entries {cs o : List Char} (ho : o ∈ entries cs) :
    IsOrigin (String.ofList o) := by
  obtain ⟨hmem, hne⟩ := List.mem_filter.mp ho
  obtain ⟨place, hplace, rfl⟩ := List.mem_map.mp hmem
  refine ⟨?_, ?_, ?_⟩
  · intro hempty
    have hnil : trim place = [] := by simpa using congrArg String.toList hempty
    simp [hnil] at hne
  · rw [String.toList_ofList]
    intro hcomma
    exact notMem_of_mem_splitOn hplace (mem_of_mem_trimBy hcomma)
  · rw [String.toList_ofList]
    exact tight_trimBy isSpace place

/-- The star is an origin. -/
theorem isOrigin_anyOrigin : IsOrigin anyOrigin :=
  ⟨by decide, by decide, ⟨by rintro c ⟨⟩; rfl, by rintro c ⟨⟩; rfl⟩⟩

/-- What a setting lists are origins. -/
theorem isOrigin_of_mem_origins {setting o : String} (ho : o ∈ origins setting) : IsOrigin o := by
  by_cases hnil : entries setting.toList = []
  · rw [origins_of_nil hnil, List.mem_singleton] at ho
    rw [ho]
    exact isOrigin_anyOrigin
  · rw [origins_of_ne_nil hnil] at ho
    obtain ⟨cs, hcs, rfl⟩ := List.mem_map.mp ho
    exact isOrigin_of_mem_entries hcs

/-- A setting lists at least one origin. -/
theorem origins_ne_nil (setting : String) : origins setting ≠ [] := by
  by_cases hnil : entries setting.toList = []
  · rw [origins_of_nil hnil]
    exact List.cons_ne_nil _ _
  · rw [origins_of_ne_nil hnil]
    simpa using hnil

/-! ## Settings that are spaced out -/

namespace Spaced

/-- No text between commas has a comma in it. -/
theorem noComma {places listed : List String} (h : Spaced places listed) :
    ∀ place ∈ places.map String.toList, ',' ∉ place := by
  have hspace : ∀ {cs : List Char}, (∀ c ∈ cs, isSpace c = true) → ',' ∉ cs := by
    intro cs hcs hcomma
    have hsome := hcs ',' hcomma
    rw [isSpace_comma] at hsome
    exact absurd hsome (by decide)
  induction h with
  | nil => simp
  | blank hgap _ ih => exact List.forall_mem_cons.mpr ⟨hspace hgap, ih⟩
  | origin hleft ho hright _ ih =>
      refine List.forall_mem_cons.mpr ⟨?_, ih⟩
      rw [String.toList_append, String.toList_append, List.mem_append, List.mem_append, not_or,
        not_or]
      exact ⟨⟨hspace hleft, ho.noComma⟩, hspace hright⟩

/-- Without white space, nothing is left of the places but the origins. -/
theorem trimmed {places listed : List String} (h : Spaced places listed) :
    ((places.map String.toList).map trim).filter (fun o => o != []) =
      listed.map String.toList := by
  induction h with
  | nil => rfl
  | blank hgap _ ih =>
      rw [List.map_cons, List.map_cons, trim, trimBy_eq_nil hgap]
      exact ih
  | @origin left o right places listed hleft ho hright _ ih =>
      have hne : o.toList ≠ [] := by simpa using ho.ne_empty
      rw [List.map_cons, List.map_cons, String.toList_append, String.toList_append, trim,
        ho.tight.trimBy_padded hleft hright, List.filter_cons_of_pos (by simpa using hne), ih]
      rfl

/-- Origins without any padding list themselves. -/
theorem refl {listed : List String} (hlisted : ∀ o ∈ listed, IsOrigin o) :
    Spaced listed listed := by
  induction listed with
  | nil => exact .nil
  | cons o listed ih =>
      obtain ⟨ho, hrest⟩ := List.forall_mem_cons.mp hlisted
      have hspaced : Spaced (("" ++ o ++ "") :: listed) (o :: listed) :=
        .origin (by simp) ho (by simp) (ih hrest)
      rwa [String.empty_append, String.append_empty] at hspaced

/-- A setting that lists origins, however they are spaced out, gives these origins. -/
theorem origins_eq {places listed : List String} (h : Spaced places listed) (hne : listed ≠ []) :
    origins (",".intercalate places) = listed := by
  have hplaces : places.map String.toList ≠ [] := by
    intro hnil
    rw [List.map_eq_nil_iff.mp hnil] at h
    cases h
    exact hne rfl
  have hentries : entries (",".intercalate places).toList = listed.map String.toList := by
    have hcomma : ",".toList = [','] := rfl
    rw [entries, String.toList_intercalate, hcomma,
      List.splitOn_intercalate ',' h.noComma hplaces, h.trimmed]
  rw [origins_of_ne_nil (by rw [hentries]; simpa using hne), hentries, List.map_map]
  simp

end Spaced

/-- **The allowed origins of a setting are canonical.** Any setting, also a missing one, gives a
list of origins that is not empty; each of them is an origin proper, and the list written with
commas gives itself. A setting that lists origins gives exactly these, in order and each as often as
it is listed, whatever white space stands around them and however many empty or blank places stand
in front of them, between them and behind them. -/
theorem allowedOrigins_canonical :
    (∀ setting : Option String, allowedOrigins setting ≠ [] ∧
      (∀ o ∈ allowedOrigins setting, IsOrigin o) ∧
      allowedOrigins (some (",".intercalate (allowedOrigins setting))) = allowedOrigins setting) ∧
    ∀ places listed : List String, Spaced places listed → listed ≠ [] →
      allowedOrigins (some (",".intercalate places)) = listed := by
  constructor
  · intro setting
    have hne : allowedOrigins setting ≠ [] := origins_ne_nil _
    have horigins : ∀ o ∈ allowedOrigins setting, IsOrigin o := fun o => isOrigin_of_mem_origins
    exact ⟨hne, horigins, (Spaced.refl horigins).origins_eq hne⟩
  · intro places listed hspaced hne
    exact hspaced.origins_eq hne

/-- A setting with two origins, the first of them twice, that is spaced out. -/
def spacedPlaces : List String :=
  ["", " " ++ "http://a" ++ "\t", "\u3000", "" ++ "http://b c" ++ "\n", "  " ++ "http://a" ++ "",
    " "]

/-- A spaced setting with one origin twice is read as its origins, in order. -/
theorem allowedOrigins_canonical_spacedPlaces :
    Spaced spacedPlaces ["http://a", "http://b c", "http://a"] ∧
      allowedOrigins (some (",".intercalate spacedPlaces)) =
        ["http://a", "http://b c", "http://a"] := by
  have ha : IsOrigin "http://a" :=
    ⟨by decide, by decide, by rintro c ⟨⟩; rfl, by rintro c ⟨⟩; rfl⟩
  have hb : IsOrigin "http://b c" :=
    ⟨by decide, by decide, by rintro c ⟨⟩; rfl, by rintro c ⟨⟩; rfl⟩
  have hspace : ∀ gap : String, gap.toList.all isSpace = true →
      ∀ c ∈ gap.toList, isSpace c = true := fun _ hall => List.all_eq_true.mp hall
  have hspaced : Spaced spacedPlaces ["http://a", "http://b c", "http://a"] :=
    .blank (hspace "" rfl) (.origin (hspace " " rfl) ha (hspace "\t" rfl)
      (.blank (hspace "\u3000" rfl) (.origin (hspace "" rfl) hb (hspace "\n" rfl)
        (.origin (hspace "  " rfl) ha (hspace "" rfl) (.blank (hspace " " rfl) .nil)))))
  exact ⟨hspaced, allowedOrigins_canonical.2 spacedPlaces _ hspaced (by decide)⟩

end Service

end DoWhile
