import DoWhile.Token.Cursor
import Mathlib.Data.List.TakeWhile

/-!
# How lexemes are spelled

Every kind of token has its texts (`Token.Kind.admits`): three reserved words, the other words,
numbers, nine symbols, single characters outside of all alphabets, and the empty text at the end
of the input. No text belongs to two kinds (`Token.Kind.eq_of_admits`), so a text determines the
kind that it is read as.

The theorems about `Lexeme.longest` say what one reading takes. What it takes is spelled by its
kind (`isProper_longest`), it is a prefix of the text (`longest_append`), the character behind it
would not have belonged to it (`not_absorbs_longest`), and these three facts determine it
(`longest_eq`).
-/

set_option autoImplicit false

namespace DoWhile

/-! ## Classes of characters -/

/-- The characters that belong to no lexeme of the language and are not blank either. -/
def isStray (c : Char) : Bool :=
  !isLetter c && !isDigit c && !isBlank c && !symbolChars.contains c

/-- A letter is no digit. -/
theorem not_isDigit_of_isLetter {c : Char} (h : isLetter c = true) : isDigit c = false := by
  simp only [isLetter, isDigit, Char.le_def, UInt32.le_iff_toNat_le, Bool.or_eq_true,
    Bool.and_eq_true, decide_eq_true_eq, beq_iff_eq, Bool.and_eq_false_iff,
    decide_eq_false_iff_not, not_le] at h ⊢
  rcases h with (⟨h, -⟩ | ⟨h, -⟩) | rfl
  · right
    exact Nat.lt_of_lt_of_le (by decide) h
  · right
    exact Nat.lt_of_lt_of_le (by decide) h
  · right
    decide

/-- A blank is one of four characters. -/
theorem mem_of_isBlank {c : Char} (h : isBlank c = true) : c ∈ [' ', '\t', '\r', '\n'] := by
  simpa [isBlank, or_assoc] using h

/-- A blank is no character of a word. -/
theorem not_isWordChar_of_isBlank {c : Char} (h : isBlank c = true) : isWordChar c = false := by
  have hall : [' ', '\t', '\r', '\n'].all (fun c => !isWordChar c) = true := by decide
  have hc := List.all_eq_true.mp hall c (mem_of_isBlank h)
  rwa [Bool.not_eq_true'] at hc

/-- A blank is no digit. -/
theorem not_isDigit_of_isBlank {c : Char} (h : isBlank c = true) : isDigit c = false := by
  have hw := not_isWordChar_of_isBlank h
  simp only [isWordChar, Bool.or_eq_false_iff] at hw
  exact hw.2

/-- A symbol has no character of a word in it. -/
theorem not_isWordChar_of_mem_symbolChars {c : Char} (h : c ∈ symbolChars) :
    isWordChar c = false := by
  have hall : symbolChars.all (fun c => !isWordChar c) = true := by decide
  have hc := List.all_eq_true.mp hall c h
  rwa [Bool.not_eq_true'] at hc

/-- A character of a symbol is no blank. -/
theorem not_isBlank_of_mem_symbolChars {c : Char} (h : c ∈ symbolChars) : isBlank c = false := by
  have hall : symbolChars.all (fun c => !isBlank c) = true := by decide
  have hc := List.all_eq_true.mp hall c h
  rwa [Bool.not_eq_true'] at hc

/-- A character of a word is no blank. -/
theorem not_isBlank_of_isWordChar {c : Char} (h : isWordChar c = true) : isBlank c = false := by
  by_contra hb
  rw [not_isWordChar_of_isBlank (by simpa using hb)] at h
  exact absurd h (by decide)

/-! ## Runs of one class -/

/-- What is taken from a text is a front part of the class, if something else comes behind it. -/
theorem takeWhile_append_of_stop {p : Char → Bool} {cs rest : List Char}
    (hcs : cs.all p = true) (hstop : ∀ d, rest.head? = some d → p d = false) :
    (cs ++ rest).takeWhile p = cs ∧ (cs ++ rest).dropWhile p = rest := by
  have hall : ∀ d ∈ cs, p d = true := List.all_eq_true.mp hcs
  rw [List.takeWhile_append_of_pos hall, List.dropWhile_append_of_pos hall]
  cases rest with
  | nil => simp
  | cons d ds =>
      have hd : p d = false := hstop d rfl
      simp [hd]

/-- What is left does not begin with a character of the class. -/
theorem not_head_dropWhile (p : Char → Bool) (cs : List Char) :
    ∀ d, (cs.dropWhile p).head? = some d → p d = false := by
  intro d hd
  have h := List.head?_dropWhile_not p cs
  rw [hd] at h
  exact h

/-! ## The texts of a kind -/

/-- Is the text a word: a letter with any characters of words behind it? -/
def isWord : List Char → Bool
  | [] => false
  | c :: cs => isLetter c && cs.all isWordChar

/-- Is the text a numeral: digits only, and at least one? -/
def isNumeral (cs : List Char) : Bool := !cs.isEmpty && cs.all isDigit

/-- The symbols of the language. -/
def symbols : List String := ["=", "==", "+", "*", ";", "\x7b", "\x7d", "(", ")"]

/-- Is the text a single stray character? -/
def isStrayText : List Char → Bool
  | [c] => isStray c
  | _ => false

namespace Token.Kind

/-- Is the text one that a token of this kind is spelled with? -/
def admits : Token.Kind → String → Bool
  | reserved, w => w ∈ reservedWords
  | identifier, w => isWord w.toList && w ∉ reservedWords
  | number, w => isNumeral w.toList
  | symbol, w => w ∈ symbols
  | endOfInput, w => w == ""
  | error, w => isStrayText w.toList

/-- Is the character one that a text of this kind may begin with? -/
def leads : Token.Kind → Char → Bool
  | reserved, c => isLetter c
  | identifier, c => isLetter c
  | number, c => isDigit c
  | symbol, c => symbolChars.contains c
  | endOfInput, _ => false
  | error, c => isStray c

end Token.Kind

/-- A reserved word is a word. -/
theorem isWord_of_mem_reservedWords {w : String} (h : w ∈ reservedWords) :
    isWord w.toList = true := by
  revert w
  decide

/-- A symbol begins with a character of symbols. -/
theorem leads_of_mem_symbols {w : String} (h : w ∈ symbols) :
    ∃ c cs, w.toList = c :: cs ∧ c ∈ symbolChars := by
  have hall : ∀ w ∈ symbols, (w.toList.head?.any symbolChars.contains) = true := by decide
  have hw := hall w h
  cases hcs : w.toList with
  | nil => simp [hcs] at hw
  | cons c cs => exact ⟨c, cs, rfl, by simpa [hcs] using hw⟩

/-- A word begins with a letter, and characters of words come behind it. -/
theorem leads_of_isWord {w : List Char} (h : isWord w = true) :
    ∃ c cs, w = c :: cs ∧ isLetter c = true ∧ cs.all isWordChar = true := by
  cases w with
  | nil => simp [isWord] at h
  | cons c cs =>
      rw [isWord, Bool.and_eq_true] at h
      exact ⟨c, cs, rfl, h.1, h.2⟩

/-- A word has only characters of words in it. -/
theorem isWordChar_of_isWord {w : List Char} (h : isWord w = true) :
    ∀ c ∈ w, isWordChar c = true := by
  obtain ⟨c, cs, rfl, hc, hcs⟩ := leads_of_isWord h
  exact List.forall_mem_cons.mpr ⟨by simp [isWordChar, hc], List.all_eq_true.mp hcs⟩

/-- A numeral begins with a digit, and digits come behind it. -/
theorem leads_of_isNumeral {w : List Char} (h : isNumeral w = true) :
    ∃ c cs, w = c :: cs ∧ isDigit c = true ∧ cs.all isDigit = true := by
  cases w with
  | nil => simp [isNumeral] at h
  | cons c cs =>
      simp only [isNumeral, List.isEmpty_cons, Bool.not_false, Bool.true_and, List.all_cons,
        Bool.and_eq_true] at h
      exact ⟨c, cs, rfl, h.1, h.2⟩

/-- A stray text is one stray character. -/
theorem eq_singleton_of_isStrayText {w : List Char} (h : isStrayText w = true) :
    ∃ c, w = [c] ∧ isStray c = true := by
  match w, h with
  | [c], h => exact ⟨c, rfl, h⟩

namespace Token.Kind

/-- A text that is not the end of the input begins with a character that leads its kind. -/
theorem leads_of_admits {k : Token.Kind} {w : String} (h : k.admits w = true)
    (hk : k ≠ .endOfInput) : ∃ c cs, w.toList = c :: cs ∧ k.leads c = true := by
  cases k with
  | reserved =>
      have hw : isWord w.toList = true := isWord_of_mem_reservedWords (by simpa [admits] using h)
      obtain ⟨c, cs, hcs, hc, -⟩ := leads_of_isWord hw
      exact ⟨c, cs, hcs, hc⟩
  | identifier =>
      rw [admits, Bool.and_eq_true] at h
      obtain ⟨c, cs, hcs, hc, -⟩ := leads_of_isWord h.1
      exact ⟨c, cs, hcs, hc⟩
  | number =>
      obtain ⟨c, cs, hcs, hc, -⟩ := leads_of_isNumeral h
      exact ⟨c, cs, hcs, hc⟩
  | symbol =>
      obtain ⟨c, cs, hcs, hc⟩ := leads_of_mem_symbols (by simpa [admits] using h)
      exact ⟨c, cs, hcs, by simpa [leads] using hc⟩
  | endOfInput => exact absurd rfl hk
  | error =>
      obtain ⟨c, hcs, hc⟩ := eq_singleton_of_isStrayText h
      exact ⟨c, [], hcs, hc⟩

/-- A character leads one kind only, words apart: these are reserved or not by their spelling. -/
theorem eq_of_leads {k k' : Token.Kind} {c : Char} (h : k.leads c = true)
    (h' : k'.leads c = true) :
    k = k' ∨ (k = .reserved ∧ k' = .identifier) ∨ (k = .identifier ∧ k' = .reserved) := by
  have hl : isLetter c = true → isDigit c = false := not_isDigit_of_isLetter
  have hs : c ∈ symbolChars → isWordChar c = false := not_isWordChar_of_mem_symbolChars
  cases k <;> cases k' <;> simp_all [leads, isStray, isWordChar]

/-- A text belongs to one kind only. -/
theorem eq_of_admits {k k' : Token.Kind} {w : String} (h : k.admits w = true)
    (h' : k'.admits w = true) : k = k' := by
  by_cases hk : k = .endOfInput
  · by_contra hne
    subst hk
    obtain ⟨c, cs, hcs, -⟩ := leads_of_admits h' (Ne.symm hne)
    simp only [admits, beq_iff_eq] at h
    simp [h] at hcs
  by_cases hk' : k' = .endOfInput
  · subst hk'
    obtain ⟨c, cs, hcs, -⟩ := leads_of_admits h hk
    simp only [admits, beq_iff_eq] at h'
    simp [h'] at hcs
  obtain ⟨c, cs, hcs, hc⟩ := leads_of_admits h hk
  obtain ⟨c', cs', hcs', hc'⟩ := leads_of_admits h' hk'
  rw [hcs] at hcs'
  obtain ⟨rfl, -⟩ := List.cons.inj hcs'
  rcases eq_of_leads hc hc' with heq | ⟨rfl, rfl⟩ | ⟨rfl, rfl⟩
  · exact heq
  · simp_all [admits]
  · simp_all [admits]

end Token.Kind

/-! ## Lexemes -/

namespace Lexeme

/-- Is the lexeme one that stands in a text: not the end of the input, and spelled by its kind? -/
def isProper (l : Lexeme) : Bool := l.kind != .endOfInput && l.kind.admits l.literal

/-- Would the character `c` right behind the lexeme be read as a part of it? -/
def absorbs (l : Lexeme) (c : Char) : Bool :=
  match l.kind with
  | .reserved => isWordChar c
  | .identifier => isWordChar c
  | .number => isDigit c
  | .symbol => l.literal == "=" && c == '='
  | .endOfInput => false
  | .error => false

/-- Is the lexeme spelled as a word? -/
def isWordLike (l : Lexeme) : Bool := l.kind = .reserved || l.kind = .identifier

/-- Would the two lexemes be read otherwise if nothing stood between them? A word takes in a word
or a number behind it, a number takes in a number, and an equals sign takes in a symbol that
begins with one. -/
def fuses (a b : Lexeme) : Bool :=
  (a.isWordLike && (b.isWordLike || b.kind = .number))
    || (a.kind = .number && b.kind = .number)
    || (a.kind = .symbol && a.literal == "="
      && (b.kind = .symbol && (b.literal == "=" || b.literal == "==")))

/-- The kind of a proper lexeme admits its text. -/
theorem admits_of_isProper {l : Lexeme} (h : l.isProper = true) :
    l.kind.admits l.literal = true := by
  rw [isProper, Bool.and_eq_true] at h
  exact h.2

/-- No character of a proper lexeme is blank. -/
theorem not_isBlank_of_mem {l : Lexeme} (h : l.isProper = true) {c : Char}
    (hc : c ∈ l.literal.toList) : isBlank c = false := by
  obtain ⟨kind, literal⟩ := l
  have hadmits : kind.admits literal = true := admits_of_isProper h
  cases kind with
  | reserved =>
      have hw : isWord literal.toList = true :=
        isWord_of_mem_reservedWords (by simpa [Token.Kind.admits] using hadmits)
      exact not_isBlank_of_isWordChar (isWordChar_of_isWord hw c hc)
  | identifier =>
      rw [Token.Kind.admits, Bool.and_eq_true] at hadmits
      exact not_isBlank_of_isWordChar (isWordChar_of_isWord hadmits.1 c hc)
  | number =>
      rw [Token.Kind.admits, isNumeral, Bool.and_eq_true] at hadmits
      have hdigit : isDigit c = true := List.all_eq_true.mp hadmits.2 c hc
      exact not_isBlank_of_isWordChar (by simp [isWordChar, hdigit])
  | symbol =>
      have hall : ∀ w ∈ symbols, (w.toList.all fun c => !isBlank c) = true := by decide
      have hw := hall literal (by simpa [Token.Kind.admits] using hadmits)
      exact (Bool.not_eq_true' _).mp (List.all_eq_true.mp hw c hc)
  | endOfInput => simp [isProper] at h
  | error =>
      obtain ⟨d, hd, hstray⟩ := eq_singleton_of_isStrayText hadmits
      obtain rfl : c = d := by simpa [hd] using hc
      simp only [isStray, Bool.and_eq_true, Bool.not_eq_true'] at hstray
      exact hstray.1.2

/-- A proper lexeme is not the end of the input. -/
theorem kind_ne_of_isProper {l : Lexeme} (h : l.isProper = true) : l.kind ≠ .endOfInput := by
  rw [isProper, Bool.and_eq_true] at h
  simpa using h.1

/-- A proper lexeme begins with a character that its kind may begin with. -/
theorem leads_of_isProper {l : Lexeme} (h : l.isProper = true) :
    ∃ c cs, l.literal.toList = c :: cs ∧ l.kind.leads c = true :=
  Token.Kind.leads_of_admits (admits_of_isProper h) (kind_ne_of_isProper h)

/-- No lexeme begins with a blank. -/
theorem not_isBlank_of_leads {k : Token.Kind} {c : Char} (h : k.leads c = true) :
    isBlank c = false := by
  cases k with
  | reserved => exact not_isBlank_of_isWordChar (by simp_all [Token.Kind.leads, isWordChar])
  | identifier => exact not_isBlank_of_isWordChar (by simp_all [Token.Kind.leads, isWordChar])
  | number => exact not_isBlank_of_isWordChar (by simp_all [Token.Kind.leads, isWordChar])
  | symbol => exact not_isBlank_of_mem_symbolChars (by simpa [Token.Kind.leads] using h)
  | endOfInput => exact absurd h (by simp [Token.Kind.leads])
  | error => simp_all [Token.Kind.leads, isStray]

/-- No lexeme takes in a blank. -/
theorem not_absorbs_of_isBlank (l : Lexeme) {c : Char} (h : isBlank c = true) :
    l.absorbs c = false := by
  have hw := not_isWordChar_of_isBlank h
  have hd := not_isDigit_of_isBlank h
  have hne : (c == '=') = false := by
    rw [beq_eq_false_iff_ne]
    rintro rfl
    exact absurd h (by decide)
  unfold absorbs
  split <;> simp [hw, hd, hne]

/-- Only a symbol begins with an equals sign. -/
theorem ne_equals_of_leads {k : Token.Kind} {c : Char} (h : k.leads c = true)
    (hk : k ≠ .symbol) : (c == '=') = false := by
  rw [beq_eq_false_iff_ne]
  rintro rfl
  have hall : ∀ k : Token.Kind, k.leads '=' = true → k = .symbol := by
    intro k
    cases k <;> decide
  exact hk (hall k h)

/-- The symbols that begin with an equals sign are the two made of nothing else. -/
theorem equals_of_mem_symbols {w : String} {c : Char} {cs : List Char} (h : w ∈ symbols)
    (hw : w.toList = c :: cs) : (c == '=') = (w == "=" || w == "==") := by
  have hall : ∀ w ∈ symbols, (w.toList.head? == some '=') = (w == "=" || w == "==") := by decide
  have hhead := hall w h
  rw [hw, List.head?_cons] at hhead
  rw [← hhead]
  rfl

/-- A proper lexeme fuses with the next one when it would take in its first character. -/
theorem fuses_eq_absorbs {a b : Lexeme} {c : Char} {cs : List Char} (hb : b.isProper = true)
    (hcs : b.literal.toList = c :: cs) : a.fuses b = a.absorbs c := by
  obtain ⟨c', cs', hcs', hc⟩ := leads_of_isProper hb
  rw [hcs] at hcs'
  obtain ⟨rfl, rfl⟩ := List.cons.inj hcs'
  have hadmits := admits_of_isProper hb
  have hne := kind_ne_of_isProper hb
  have hequals := fun hk => ne_equals_of_leads hc hk
  -- the class of the first character of `b`, kind by kind
  have hword : isWordChar c = (b.isWordLike || b.kind = .number) := by
    have hl : isLetter c = true → isDigit c = false := not_isDigit_of_isLetter
    have hs : c ∈ symbolChars → isWordChar c = false := not_isWordChar_of_mem_symbolChars
    cases hk : b.kind <;> simp_all [Token.Kind.leads, isStray, isWordChar, isWordLike]
  have hdigit : isDigit c = decide (b.kind = .number) := by
    have hl : isLetter c = true → isDigit c = false := not_isDigit_of_isLetter
    have hs : c ∈ symbolChars → isWordChar c = false := not_isWordChar_of_mem_symbolChars
    cases hk : b.kind <;> simp_all [Token.Kind.leads, isStray, isWordChar]
  have hequal : (c == '=') = (b.kind = .symbol && (b.literal == "=" || b.literal == "==")) := by
    by_cases hk : b.kind = .symbol
    · have hmem : b.literal ∈ symbols := by simpa [hk, Token.Kind.admits] using hadmits
      simp [hk, equals_of_mem_symbols hmem hcs]
    · simp [hk, hequals hk]
  unfold fuses absorbs
  cases ha : a.kind <;> simp [isWordLike, ha, hword, hdigit, hequal]

/-! ## What one reading takes -/

/-- From a letter on, the longest lexeme is a word. -/
theorem longest_of_isLetter {c : Char} (h : isLetter c = true) (rest : List Char) :
    longest c rest =
      (ofWord (String.ofList (c :: rest.takeWhile isWordChar)), rest.dropWhile isWordChar) := by
  simp only [longest, h, if_true]

/-- From a digit on, the longest lexeme is a number. -/
theorem longest_of_isDigit {c : Char} (h : isDigit c = true) (rest : List Char) :
    longest c rest =
      (⟨.number, String.ofList (c :: rest.takeWhile isDigit)⟩, rest.dropWhile isDigit) := by
  have hl : isLetter c = false := by
    by_contra hl
    rw [not_isDigit_of_isLetter (by simpa using hl)] at h
    exact absurd h (by decide)
  simp only [longest, hl, h, if_true, if_false, Bool.false_eq_true]

/-- From any other character on, the longest lexeme is that character, unless it is the first of two
equals signs. -/
theorem longest_of_single {c : Char} {rest : List Char} (hw : isWordChar c = false)
    (hne : ¬ (c = '=' ∧ rest.head? = some '=')) :
    longest c rest = (⟨if c ∈ symbolChars then .symbol else .error, String.singleton c⟩, rest) := by
  rw [isWordChar, Bool.or_eq_false_iff] at hw
  simp only [longest, hw.1, hw.2, hne, if_false, Bool.false_eq_true]

/-- What can be read: a word, a numeral, two equals signs, or a single character. -/
theorem longest_cases (c : Char) (rest : List Char) :
    (isLetter c = true ∧ longest c rest =
        (ofWord (String.ofList (c :: rest.takeWhile isWordChar)), rest.dropWhile isWordChar)) ∨
      (isDigit c = true ∧ longest c rest =
        (⟨.number, String.ofList (c :: rest.takeWhile isDigit)⟩, rest.dropWhile isDigit)) ∨
      (∃ ds, c = '=' ∧ rest = '=' :: ds ∧ longest c rest = (⟨.symbol, "=="⟩, ds)) ∨
      (isWordChar c = false ∧ ¬ (c = '=' ∧ rest.head? = some '=') ∧ longest c rest =
        (⟨if c ∈ symbolChars then .symbol else .error, String.singleton c⟩, rest)) := by
  by_cases hl : isLetter c = true
  · exact .inl ⟨hl, longest_of_isLetter hl rest⟩
  by_cases hd : isDigit c = true
  · exact .inr (.inl ⟨hd, longest_of_isDigit hd rest⟩)
  by_cases he : c = '=' ∧ rest.head? = some '='
  · obtain ⟨rfl, hrest⟩ := he
    obtain ⟨ds, rfl⟩ : ∃ ds, rest = '=' :: ds := List.head?_eq_some_iff.mp hrest
    exact .inr (.inr (.inl ⟨ds, rfl, rfl, rfl⟩))
  · have hw : isWordChar c = false := by simp [isWordChar, hl, hd]
    exact .inr (.inr (.inr ⟨hw, he, longest_of_single hw he⟩))

/-- A character of no word that is no blank is a proper lexeme by itself. -/
theorem isProper_single {c : Char} (hw : isWordChar c = false) (hb : isBlank c = false) :
    isProper ⟨if c ∈ symbolChars then .symbol else .error, String.singleton c⟩ = true := by
  by_cases hs : c ∈ symbolChars
  · have hall : symbolChars.all (fun c => symbols.contains (String.singleton c)) = true := by
      decide
    have hmem : String.singleton c ∈ symbols := by simpa using List.all_eq_true.mp hall c hs
    simp [isProper, Token.Kind.admits, hs, hmem]
  · rw [isWordChar, Bool.or_eq_false_iff] at hw
    simp [isProper, Token.Kind.admits, isStrayText, isStray, hs, hw.1, hw.2, hb]

/-- A word is a proper lexeme. -/
theorem isProper_ofWord {w : String} (hw : isWord w.toList = true) :
    (ofWord w).isProper = true := by
  by_cases hmem : w ∈ reservedWords
  · simp [ofWord, isProper, Token.Kind.admits, hmem]
  · simp [ofWord, isProper, Token.Kind.admits, hmem, hw]

/-- The longest lexeme from a character on is proper. -/
theorem isProper_longest (c : Char) (rest : List Char) (h : isBlank c = false) :
    (longest c rest).1.isProper = true := by
  obtain ⟨hc, heq⟩ | ⟨hc, heq⟩ | ⟨ds, -, -, heq⟩ | ⟨hc, -, heq⟩ := longest_cases c rest
  · rw [heq]
    apply isProper_ofWord
    rw [String.toList_ofList, isWord, hc, List.all_takeWhile, Bool.and_self]
  · rw [heq]
    simp [isProper, Token.Kind.admits, isNumeral, hc, List.all_takeWhile]
  · rw [heq]
    rfl
  · rw [heq]
    exact isProper_single hc h

/-- The longest lexeme and what is left are the text. -/
theorem longest_append (c : Char) (rest : List Char) :
    (longest c rest).1.literal.toList ++ (longest c rest).2 = c :: rest := by
  obtain ⟨-, heq⟩ | ⟨-, heq⟩ | ⟨ds, rfl, rfl, heq⟩ | ⟨-, -, heq⟩ := longest_cases c rest
  · simp [heq, ofWord]
  · simp [heq]
  · simp [heq]
  · simp [heq]

/-- A word absorbs the characters of words. -/
theorem absorbs_ofWord (w : String) (c : Char) : (ofWord w).absorbs c = isWordChar c := by
  by_cases hmem : w ∈ reservedWords
  · simp [ofWord, absorbs, hmem]
  · simp [ofWord, absorbs, hmem]

/-- What is read does not go on behind the place where it ends. -/
theorem not_absorbs_longest (c : Char) (rest : List Char) :
    ∀ d, (longest c rest).2.head? = some d → (longest c rest).1.absorbs d = false := by
  intro d
  obtain ⟨-, heq⟩ | ⟨-, heq⟩ | ⟨ds, -, -, heq⟩ | ⟨-, hne, heq⟩ := longest_cases c rest
  · rw [heq, absorbs_ofWord]
    exact not_head_dropWhile isWordChar rest d
  · rw [heq]
    exact not_head_dropWhile isDigit rest d
  · rw [heq]
    intro _
    rfl
  · rw [heq]
    intro hd
    by_cases hs : c ∈ symbolChars
    · have hcd : c = '=' → d ≠ '=' := by
        rintro rfl rfl
        exact hne ⟨rfl, hd⟩
      simpa [absorbs, hs, String.ext_iff] using hcd
    · simp [absorbs, hs]

/-- A lexeme that is spelled as a word is the one of that word. -/
theorem ofWord_literal {l : Lexeme} (hl : l.isProper = true) (hw : l.isWordLike = true) :
    ofWord l.literal = l := by
  obtain ⟨kind, literal⟩ := l
  have hadmits : kind.admits literal = true := admits_of_isProper hl
  have hkind : kind = .reserved ∨ kind = .identifier := by simpa [isWordLike] using hw
  rcases hkind with rfl | rfl
  · have hmem : literal ∈ reservedWords := by simpa [Token.Kind.admits] using hadmits
    simp [ofWord, hmem]
  · have hmem : literal ∉ reservedWords := by
      simp only [Token.Kind.admits, Bool.and_eq_true, decide_eq_true_eq] at hadmits
      exact hadmits.2
    simp [ofWord, hmem]

/-- A symbol is the double equals sign or one character. -/
theorem eq_or_singleton_of_mem_symbols {w : String} (h : w ∈ symbols) :
    w = "==" ∨ ∃ c ∈ symbolChars, w = String.singleton c := by
  have hall : symbols.all
      (fun w => w == "==" || symbolChars.any fun c => w == String.singleton c) = true := by decide
  have hw := List.all_eq_true.mp hall w h
  simpa only [Bool.or_eq_true, beq_iff_eq, List.any_eq_true] using hw

/-- A lexeme that is spelled as a word has the text of one. -/
theorem isWord_of_isWordLike {l : Lexeme} (hl : l.isProper = true) (hw : l.isWordLike = true) :
    isWord l.literal.toList = true := by
  have hadmits := admits_of_isProper hl
  have hkind : l.kind = .reserved ∨ l.kind = .identifier := by simpa [isWordLike] using hw
  rcases hkind with hk | hk
  · rw [hk] at hadmits
    exact isWord_of_mem_reservedWords (by simpa [Token.Kind.admits] using hadmits)
  · simp only [hk, Token.Kind.admits, Bool.and_eq_true] at hadmits
    exact hadmits.1

section Stops

variable {l : Lexeme} {c : Char} {cs rest : List Char}

/-- A word is read in full if nothing behind it belongs to it. -/
theorem longest_eq_of_isWordLike (hl : l.isProper = true) (hw : l.isWordLike = true)
    (hcs : l.literal.toList = c :: cs)
    (hstop : ∀ d, rest.head? = some d → l.absorbs d = false) :
    longest c (cs ++ rest) = (l, rest) := by
  have hword := isWord_of_isWordLike hl hw
  rw [hcs, isWord, Bool.and_eq_true] at hword
  rw [← ofWord_literal hl hw] at hstop ⊢
  simp only [absorbs_ofWord] at hstop
  obtain ⟨htake, hdrop⟩ := takeWhile_append_of_stop hword.2 hstop
  rw [longest_of_isLetter hword.1, htake, hdrop, ← hcs, String.ofList_toList]

/-- A numeral is read in full if no digit comes behind it. -/
theorem longest_eq_of_isNumeral {w : String} (hw : isNumeral w.toList = true)
    (hcs : w.toList = c :: cs) (hstop : ∀ d, rest.head? = some d → isDigit d = false) :
    longest c (cs ++ rest) = (⟨.number, w⟩, rest) := by
  simp only [hcs, isNumeral, List.isEmpty_cons, Bool.not_false, Bool.true_and, List.all_cons,
    Bool.and_eq_true] at hw
  obtain ⟨htake, hdrop⟩ := takeWhile_append_of_stop hw.2 hstop
  rw [longest_of_isDigit hw.1, htake, hdrop, ← hcs, String.ofList_toList]

/-- A symbol is read in full unless an equals sign behind it belongs to it. -/
theorem longest_eq_of_mem_symbols {w : String} (hw : w ∈ symbols) (hcs : w.toList = c :: cs)
    (hstop : ∀ d, rest.head? = some d → (w == "=" && d == '=') = false) :
    longest c (cs ++ rest) = (⟨.symbol, w⟩, rest) := by
  obtain rfl | ⟨d, hd, rfl⟩ := eq_or_singleton_of_mem_symbols hw
  · obtain ⟨rfl, rfl⟩ := List.cons.inj hcs
    rfl
  · rw [String.toList_singleton] at hcs
    obtain ⟨rfl, rfl⟩ := List.cons.inj hcs
    have hne : ¬ (d = '=' ∧ rest.head? = some '=') := by
      rintro ⟨rfl, hrest⟩
      exact absurd (hstop '=' hrest) (by decide)
    rw [List.nil_append, longest_of_single (not_isWordChar_of_mem_symbolChars hd) hne]
    simp [hd]

/-- A stray character is read by itself. -/
theorem longest_eq_of_isStray (hc : isStray c = true) :
    longest c rest = (⟨.error, String.singleton c⟩, rest) := by
  simp only [isStray, Bool.and_eq_true, Bool.not_eq_true'] at hc
  obtain ⟨⟨⟨hl, hd⟩, -⟩, hs⟩ := hc
  have hmem : c ∉ symbolChars := by simpa using hs
  have hne : ¬ (c = '=' ∧ rest.head? = some '=') := by
    rintro ⟨rfl, -⟩
    exact hmem (by decide)
  rw [longest_of_single (by simp [isWordChar, hl, hd]) hne]
  simp [hmem]

/-- A proper lexeme is what is read wherever it stands in front of a character that it does not
take in. -/
theorem longest_eq (hl : l.isProper = true) (hcs : l.literal.toList = c :: cs)
    (hstop : ∀ d, rest.head? = some d → l.absorbs d = false) :
    longest c (cs ++ rest) = (l, rest) := by
  have hadmits := admits_of_isProper hl
  have hne := kind_ne_of_isProper hl
  obtain ⟨kind, literal⟩ := l
  cases kind with
  | reserved => exact longest_eq_of_isWordLike hl rfl hcs hstop
  | identifier => exact longest_eq_of_isWordLike hl rfl hcs hstop
  | number => exact longest_eq_of_isNumeral hadmits hcs hstop
  | symbol =>
      have hmem : literal ∈ symbols := by simpa [Token.Kind.admits] using hadmits
      exact longest_eq_of_mem_symbols hmem hcs hstop
  | endOfInput => exact absurd rfl hne
  | error =>
      obtain ⟨d, hd, hstray⟩ := eq_singleton_of_isStrayText hadmits
      have hd' : literal = String.singleton d := by
        rw [← String.ofList_toList (s := literal)]
        dsimp only at hd
        rw [hd]
        rfl
      rw [hd] at hcs
      obtain ⟨rfl, rfl⟩ := List.cons.inj hcs
      rw [List.nil_append, longest_eq_of_isStray hstray, hd']

end Stops

end Lexeme

/-- A proper token is not the end of the input. -/
theorem Token.isEnd_of_isProper {t : Token} (ht : t.isProper = true) : t.isEnd = false := by
  simpa [isEnd] using Lexeme.kind_ne_of_isProper ht

end DoWhile
