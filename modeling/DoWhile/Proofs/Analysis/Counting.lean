import DoWhile.Proofs.Token.Layout
import DoWhile.Report

/-!
# Counting tokens

Tokens are counted one by one, each under the category of its kind. A token that is counted adds one
to its own category and to the total and leaves the other categories alone (`Tally.count_ofCounts`),
so in the end each category holds the number of tokens of its kind (`TokenCounts.ofTokens_eq`). A
category that is to be counted is always there, because every kind but that of end tokens has one
(`mem_countedKinds_iff`). On a scan the end token is the only one that is left out (`total_scan`).
-/

set_option autoImplicit false

namespace DoWhile

/-- Kinds with the same category are the same. -/
theorem Token.Kind.category_inj {k k' : Token.Kind} (h : k.category = k'.category) : k = k' := by
  cases k <;> cases k' <;> simp [category] at h ⊢

/-- Every kind is counted, but that of end tokens. -/
theorem mem_countedKinds_iff (k : Token.Kind) : k ∈ countedKinds ↔ k ≠ .endOfInput := by
  cases k <;> decide

namespace Tally

/-- A count in progress with the given number for each counted kind. -/
def ofCounts (number : Token.Kind → Nat) (total : Nat) : Tally :=
  ⟨countedKinds.map fun k => (k.category, number k), total⟩

/-- The numbers of the counted kinds are all that matters. -/
theorem ofCounts_congr {number number' : Token.Kind → Nat} (total : Nat)
    (h : ∀ k, k ≠ .endOfInput → number k = number' k) :
    ofCounts number total = ofCounts number' total := by
  refine congrArg (Tally.mk · total) (List.map_congr_left fun k hk => ?_)
  rw [h k ((mem_countedKinds_iff k).mp hk)]

/-- A token adds one to its own kind and to the total, unless it is an end token. -/
theorem count_ofCounts (number : Token.Kind → Nat) (total : Nat) (t : Token) :
    (ofCounts number total).count t =
      ofCounts (fun k => number k + if t.kind = k then 1 else 0)
        (total + if t.isEnd then 0 else 1) := by
  cases hend : t.isEnd with
  | true =>
      have hkind : t.kind = .endOfInput := of_decide_eq_true hend
      rw [count, if_pos hend]
      refine ofCounts_congr total fun k hk => ?_
      rw [hkind, if_neg hk.symm, Nat.add_zero]
  | false =>
      rw [count, hend, if_neg Bool.false_ne_true, if_neg Bool.false_ne_true, ofCounts, ofCounts,
        List.map_map]
      refine congrArg (Tally.mk · (total + 1)) (List.map_congr_left fun k _ => ?_)
      by_cases hk : t.kind = k
      · simp [hk]
      · have hcategory : k.category ≠ t.kind.category :=
          fun hc => hk (Token.Kind.category_inj hc).symm
        simp [hk, hcategory]

/-- Counting tokens one by one adds to each kind the number of its tokens. -/
theorem foldl_count (tokens : List Token) (number : Token.Kind → Nat) (total : Nat) :
    tokens.foldl count (ofCounts number total) =
      ofCounts (fun k => number k + tokens.countP fun t => t.kind = k)
        (total + tokens.countP fun t => !t.isEnd) := by
  induction tokens generalizing number total with
  | nil => rfl
  | cons t tokens ih =>
      rw [List.foldl_cons, count_ofCounts, ih]
      congr 1
      · funext k
        rw [List.countP_cons]
        by_cases hk : t.kind = k
        · simp [hk]
          omega
        · simp [hk]
      · rw [List.countP_cons]
        cases t.isEnd with
        | true => simp
        | false =>
            simp
            omega

end Tally

namespace TokenCounts

/-- Each category counts the tokens of its kind, and the total the tokens that are no end tokens. -/
theorem ofTokens_eq (tokens : List Token) :
    ofTokens tokens =
      { reserved := tokens.countP fun t => t.kind = .reserved
        identifier := tokens.countP fun t => t.kind = .identifier
        number := tokens.countP fun t => t.kind = .number
        symbol := tokens.countP fun t => t.kind = .symbol
        error := tokens.countP fun t => t.kind = .error
        total := tokens.countP fun t => !t.isEnd } := by
  have hstart : Tally.start = Tally.ofCounts (fun _ => 0) 0 := rfl
  rw [ofTokens, hstart, Tally.foldl_count]
  simp only [Nat.zero_add]
  rfl

end TokenCounts

/-- Tokens of a kind are counted by the category of their rows. -/
theorem countP_category (ts : List Token) (k : Token.Kind) :
    (ts.map TokenRow.ofToken).countP (fun r => r.category == k.category) =
      ts.countP fun t => t.kind = k := by
  rw [List.countP_map]
  apply List.countP_congr
  intro t _
  rw [Function.comp_apply, beq_iff_eq, decide_eq_true_eq]
  exact ⟨Token.Kind.category_inj, fun h => h ▸ rfl⟩

/-- Each category counts the rows of tokens that show it. -/
theorem TokenCounts.ofTokens_rows (tokens : List Token) :
    let countOf category :=
      (tokens.map TokenRow.ofToken).countP fun r => r.category == category
    ofTokens tokens =
      ⟨countOf "reserved", countOf "identifier", countOf "number", countOf "symbol",
        countOf "error", tokens.countP fun t => !t.isEnd⟩ := by
  rw [ofTokens_eq, ← countP_category tokens .reserved, ← countP_category tokens .identifier,
    ← countP_category tokens .number, ← countP_category tokens .symbol,
    ← countP_category tokens .error]
  rfl

/-- The total is the sum of the five categories. -/
theorem total_eq_sum (ts : List Token) :
    (TokenCounts.ofTokens ts).total = (TokenCounts.ofTokens ts).reserved +
      (TokenCounts.ofTokens ts).identifier + (TokenCounts.ofTokens ts).number +
      (TokenCounts.ofTokens ts).symbol + (TokenCounts.ofTokens ts).error := by
  simp only [TokenCounts.ofTokens_eq]
  induction ts with
  | nil => rfl
  | cons t ts ih =>
      simp only [List.countP_cons, ih]
      cases hkind : t.kind <;> simp [Token.isEnd, hkind] <;> omega

/-- The end token is the only one of a scan that does not count. -/
theorem total_scan (source : String) :
    ((TokenCounts.ofTokens (scan source)).total : Int) = (scan source).length - 1 := by
  obtain ⟨ts, q, hts, hproper⟩ := exists_scan_eq source
  have hall : ts.countP (fun t => !t.isEnd) = ts.length := by
    rw [List.countP_eq_length]
    intro t ht
    rw [Token.isEnd_of_isProper (hproper t ht), Bool.not_false]
  have hend : [Token.endAt q].countP (fun t => !t.isEnd) = 0 := rfl
  simp only [TokenCounts.ofTokens_eq, hts, List.countP_append, hall, hend, List.length_append,
    List.length_singleton, Nat.add_zero]
  omega

end DoWhile
