import DoWhile.Proofs.Token.Layout

/-!
# Writing lexemes down and reading them back

Lexemes are written down one behind the other, with blanks in front of, between and behind them. A
text shows where its gaps end, because lexemes hold no blanks; so a text has only one layout with
given lexemes (`Layout.eq_of_text_eq`). If a scan of what was written reads the same lexemes, its
own layout is therefore the one that was written, and no lexeme stands where it would go on into the
next one. With this, lexemes are read back exactly if the gaps keep them apart
(`scan_reads_back_iff`).
-/

set_option autoImplicit false

namespace DoWhile

/-! ## The lexemes of scans -/

/-- Is the lexeme one that a scan of some text gives in front of the end of the input? -/
def Lexeme.Scannable (x : Lexeme) : Prop :=
  ∃ source, ∃ t ∈ scan source, t.isEnd = false ∧ t.toLexeme = x

/-- The lexemes that scans give are those that are spelled by their kind. -/
theorem Lexeme.scannable_iff (x : Lexeme) : x.Scannable ↔ x.isProper = true := by
  constructor
  · rintro ⟨source, t, ht, hend, rfl⟩
    obtain ⟨ts, q, hts, hproper⟩ := exists_scan_eq source
    rw [hts, List.mem_append, List.mem_singleton] at ht
    rcases ht with ht | rfl
    · exact hproper t ht
    · exact absurd hend (by simp [Token.isEnd, Token.endAt, endOfInput])
  · intro hx
    have hl : (Layout.next [] x (.last [])).Sound := by
      refine ⟨rfl, ?_, ?_, trivial⟩
      · rw [Layout.lexemes, List.forall_mem_cons]
        exact ⟨hx, by simp [Layout.lexemes]⟩
      · simp [Layout.text]
    have htext : (Layout.next [] x (.last [])).text = x.literal.toList := by simp [Layout.text]
    refine ⟨x.literal, ⟨x, Position.start⟩, ?_, Token.isEnd_of_isProper hx, rfl⟩
    rw [scan_text hl htext]
    exact List.mem_cons_self

/-! ## One layout -/

/-- A text shows where its first gap ends. -/
theorem Layout.gap_eq {gap gap' rest rest' : List Char} {x : Lexeme} (hx : x.isProper = true)
    (hgap : gap.all isBlank = true) (hgap' : gap'.all isBlank = true)
    (htext : gap ++ (x.literal.toList ++ rest) = gap' ++ (x.literal.toList ++ rest')) :
    gap = gap' ∧ rest = rest' := by
  obtain ⟨c, cs, hcs, hc⟩ := Lexeme.leads_of_isProper hx
  have hblank : isBlank c = false := Lexeme.not_isBlank_of_leads hc
  have htake : ∀ {g r : List Char}, g.all isBlank = true →
      (g ++ (x.literal.toList ++ r)).takeWhile isBlank = g := by
    intro g r hg
    exact (takeWhile_append_of_stop hg (by simp [hcs, hblank])).1
  have hsame : gap = gap' := by rw [← htake hgap, htext, htake hgap']
  subst hsame
  exact ⟨rfl, List.append_cancel_left (List.append_cancel_left htext)⟩

/-- Layouts with blank gaps that have the same proper lexemes and the same text are equal. -/
theorem Layout.eq_of_text_eq (l m : Layout) (hl : l.gapsBlank = true) (hm : m.gapsBlank = true)
    (hproper : ∀ x ∈ l.lexemes, x.isProper = true) (hlexemes : l.lexemes = m.lexemes)
    (htext : l.text = m.text) : l = m := by
  induction l generalizing m with
  | last gap =>
      cases m with
      | last gap' => exact congrArg last htext
      | next gap' y rest => exact absurd hlexemes (by simp [lexemes])
  | next gap x more ih =>
      cases m with
      | last gap' => exact absurd hlexemes (by simp [lexemes])
      | next gap' y rest =>
          rw [lexemes, lexemes, List.cons.injEq] at hlexemes
          obtain ⟨rfl, hlexemes⟩ := hlexemes
          rw [lexemes, List.forall_mem_cons] at hproper
          rw [gapsBlank, Bool.and_eq_true] at hl hm
          rw [text, text] at htext
          obtain ⟨rfl, hrest⟩ := gap_eq hproper.1 hl.1 hm.1 htext
          rw [ih rest hl.2 hm.2 hproper.2 hlexemes hrest]

/-! ## Reading back -/

/-- **Reading back.** Lexemes such as scans give, written down with blanks in front of, between and
behind them, are read back, and the end of the input behind them, exactly if no gap is empty between
two that fuse: a word and a word or a number, two numbers, or an equals sign and a symbol that
begins with one. -/
theorem scan_reads_back_iff (l : Layout) (hgaps : l.gapsBlank = true)
    (hlexemes : ∀ x ∈ l.lexemes, x.Scannable) :
    (scan (String.ofList l.text)).map (·.toLexeme) = l.lexemes ++ [Lexeme.endOfInput] ↔
      l.Apart := by
  have hproper : ∀ x ∈ l.lexemes, x.isProper = true := fun x hx =>
    x.scannable_iff.mp (hlexemes x hx)
  rw [← l.maximal_iff_apart hgaps hproper]
  constructor
  · intro hscan
    -- the layout that the scan makes of the text is the one that was written
    obtain ⟨m, hm, htext⟩ := exists_sound_text l.text
    rw [scan_lexemes hm (by rw [htext, String.toList_ofList]), List.append_left_inj] at hscan
    have hsame : l = m := l.eq_of_text_eq m hgaps hm.gaps hproper hscan.symm htext.symm
    rw [hsame]
    exact hm.maximal
  · intro hmax
    exact scan_lexemes ⟨hgaps, hproper, hmax⟩ (by rw [String.toList_ofList])

/-- Lexemes of all classes with blanks only where they need them, and `gap` between two kinds of
equals signs. -/
def equalsRow (gap : List Char) : Layout :=
  .next ['\t'] ⟨.number, "12"⟩ (.next [] ⟨.identifier, "ab12"⟩ (.next [' '] ⟨.number, "3"⟩
    (.next [] ⟨.symbol, "=="⟩ (.next [] ⟨.symbol, "="⟩ (.next gap ⟨.symbol, "=="⟩
      (.next [] ⟨.error, "?"⟩ (.next [] ⟨.reserved, "do"⟩ (.last []))))))))

/-- A row of all kinds of lexemes is read back with a blank between its equals signs, and not
without it. -/
theorem scan_reads_back_equalsRow :
    (equalsRow ['\r']).gapsBlank = true ∧ (∀ x ∈ (equalsRow ['\r']).lexemes, x.Scannable) ∧
      (scan (String.ofList (equalsRow ['\r']).text)).map (·.toLexeme) =
        (equalsRow ['\r']).lexemes ++ [Lexeme.endOfInput] ∧
      (scan (String.ofList (equalsRow []).text)).map (·.toLexeme) ≠
        (equalsRow []).lexemes ++ [Lexeme.endOfInput] := by
  have hproper : ∀ x ∈ (equalsRow ['\r']).lexemes, x.isProper = true := by decide
  have hscannable : ∀ x ∈ (equalsRow ['\r']).lexemes, x.Scannable := fun x hx =>
    x.scannable_iff.mpr (hproper x hx)
  have hapart : (equalsRow ['\r']).Apart := by decide
  have hfused : ¬ (equalsRow []).Apart := by decide
  refine ⟨rfl, hscannable, ?_, ?_⟩
  · exact (scan_reads_back_iff (equalsRow ['\r']) rfl hscannable).mpr hapart
  · exact fun hscan => hfused ((scan_reads_back_iff (equalsRow []) rfl hscannable).mp hscan)

end DoWhile
