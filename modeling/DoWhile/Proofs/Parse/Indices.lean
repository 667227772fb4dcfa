import DoWhile.Proofs.Parse.Statements
import Mathlib.Data.Nat.Init
import Mathlib.Logic.Function.Iterate

/-!
# Reading at an index

The feed that stands at an index of a closed token list (`Feed.atIndex`) has the list from that
index on before it, and it moves to the feeds at the later indices and to no others
(`Feed.moves_atIndex_iff`). So what a parse reads between two feeds is the part of the list between
two indices.

At every index, a construct that fails has raised exactly one diagnostic, and one that does not fail
has raised none. A loop may raise diagnostics and be read all the same, but it raises one if it
fails; and it is read without any exactly where the tokens spell a loop
(`constructs_settled_atIndex`).
-/

set_option autoImplicit false

namespace DoWhile

namespace Feed

/-! ## The feed at an index -/

/-- The feed on a token list, moved on to the token at the index. -/
def atIndex (tokens : List Token) (i : Nat) : Feed := advance^[i] (ofTokens tokens)

/-- The feed one index further on is moved on by one token. -/
theorem atIndex_succ (tokens : List Token) (i : Nat) :
    atIndex tokens (i + 1) = (atIndex tokens i).advance := Function.iterate_succ_apply' _ _ _

/-- The feed at an index stands on a list that ends in an end token. -/
theorem live_atIndex (tokens : List Token) (i : Nat) : (atIndex tokens i).Live := by
  induction i with
  | zero => exact live_ofTokens tokens
  | succ i ih =>
      rw [atIndex_succ]
      exact ih.advance

/-- The feed at an index has the list from there on before it. -/
theorem tokens_atIndex {tokens : List Token} {i : Nat} (hi : i < (closed tokens).length) :
    (atIndex tokens i).current :: (atIndex tokens i).following = (closed tokens).drop i := by
  induction i with
  | zero => exact ofTokens_tokens tokens
  | succ i ih =>
      have hdrop := ih (by omega)
      rw [List.drop_eq_getElem_cons (by omega)] at hdrop
      have hfollowing := (List.cons.inj hdrop).2
      have hne : (atIndex tokens i).following ≠ [] := by
        rw [hfollowing, Ne, List.drop_eq_nil_iff]
        omega
      rw [atIndex_succ, ← hfollowing]
      exact (current_cons_following_advance (live_atIndex tokens i).free hne).symm

/-- The current token of the feed at an index is the one at that index. -/
theorem current_atIndex {tokens : List Token} {i : Nat} (hi : i < (closed tokens).length) :
    (atIndex tokens i).current = (closed tokens)[i] := by
  have htokens := tokens_atIndex hi
  rw [List.drop_eq_getElem_cons hi] at htokens
  exact (List.cons.inj htokens).1

/-- The tokens that follow at an index are those behind that index. -/
theorem following_atIndex {tokens : List Token} {i : Nat} (hi : i < (closed tokens).length) :
    (atIndex tokens i).following = (closed tokens).drop (i + 1) := by
  have htokens := tokens_atIndex hi
  rw [List.drop_eq_getElem_cons hi] at htokens
  exact (List.cons.inj htokens).2

/-- A part of a list that reaches one index further has one more token. -/
theorem extract_succ {α : Type} {xs : List α} {i j : Nat} (hij : i ≤ j) (hj : j < xs.length) :
    xs.extract i (j + 1) = xs.extract i j ++ [xs[j]] := by
  have hcount : j + 1 - i = j - i + 1 := by omega
  have hlast : i + (j - i) = j := by omega
  rw [List.extract_eq_take_drop, List.extract_eq_take_drop, hcount, List.take_add_one,
    List.getElem?_drop, hlast, List.getElem?_eq_getElem hj]
  rfl

/-- Where a feed arrives is settled by the tokens onto which it moves. -/
theorem Moves.unique {f g h : Feed} {us : List Token} (hg : f.Moves us g) (hh : f.Moves us h) :
    g = h := by
  obtain ⟨current, following, held⟩ := g
  obtain ⟨current', following', held'⟩ := h
  have hfollowing : us ++ following = us ++ following' := hg.following.symm.trans hh.following
  have hcurrent : current = current' := hg.current.trans hh.current.symm
  have hheld : held = held' := hg.held.trans hh.held.symm
  rw [hcurrent, hheld, List.append_cancel_left hfollowing]

/-- From one index to another the feed moves onto the tokens in between. -/
theorem moves_atIndex {tokens : List Token} {i j : Nat} (hij : i ≤ j)
    (hj : j < (closed tokens).length) :
    (atIndex tokens i).Moves ((closed tokens).extract (i + 1) (j + 1)) (atIndex tokens j) := by
  induction j, hij using Nat.le_induction with
  | base =>
      rw [List.extract_eq_take_drop, Nat.sub_self, List.take_zero]
      exact Moves.refl _
  | succ j hij ih =>
      have hmoves := ih (by omega)
      have hfollowing : (atIndex tokens j).following =
          (closed tokens)[j + 1] :: (closed tokens).drop (j + 1 + 1) := by
        rw [following_atIndex (by omega), List.drop_eq_getElem_cons hj]
      have hpeek : (atIndex tokens j).peek = (closed tokens)[j + 1] := by
        rw [peek, hfollowing, List.headD_cons]
      have hne : (atIndex tokens j).following ≠ [] := by
        rw [hfollowing]
        exact List.cons_ne_nil _ _
      have hstep := (live_atIndex tokens j).moves_of_following hne
      rw [hpeek, ← atIndex_succ] at hstep
      rw [extract_succ (Nat.succ_le_succ hij) hj]
      exact hmoves.trans hstep

/-- From the feed at an index, one moves to the feeds at the later indices. -/
theorem moves_atIndex_iff {tokens us : List Token} {i : Nat} {g : Feed}
    (hi : i < (closed tokens).length) :
    (atIndex tokens i).Moves us g ↔ ∃ j, i ≤ j ∧ j < (closed tokens).length ∧
      g = atIndex tokens j ∧ us = (closed tokens).extract (i + 1) (j + 1) := by
  constructor
  · intro h
    have hfollowing := h.following
    rw [following_atIndex hi] at hfollowing
    have hlen := congrArg List.length hfollowing
    rw [List.length_drop, List.length_append] at hlen
    have hus : us = (closed tokens).extract (i + 1) (i + us.length + 1) := by
      have hcount : i + us.length + 1 - (i + 1) = us.length := by omega
      rw [List.extract_eq_take_drop, hfollowing, hcount, List.take_left]
    have hj : i + us.length < (closed tokens).length := by omega
    have hmoves := moves_atIndex (Nat.le_add_right i us.length) hj
    rw [← hus] at hmoves
    exact ⟨i + us.length, by omega, hj, h.unique hmoves, hus⟩
  · rintro ⟨j, hij, hj, rfl, rfl⟩
    exact moves_atIndex hij hj

/-- The token at an index and those between it and a later one. -/
theorem current_cons_extract {tokens : List Token} {i j : Nat} (hij : i ≤ j)
    (hj : j < (closed tokens).length) :
    (atIndex tokens i).current :: (closed tokens).extract (i + 1) (j + 1) =
      (closed tokens).extract i (j + 1) := by
  have hi : i < (closed tokens).length := by omega
  have hcount : j + 1 - i = j + 1 - (i + 1) + 1 := by omega
  rw [current_atIndex hi, List.extract_eq_take_drop, List.extract_eq_take_drop,
    List.drop_eq_getElem_cons hi, hcount, List.take_succ_cons]

end Feed

/-! ## Constructs -/

namespace Parse

/-- A loop is read without a diagnostic exactly from the first to the last index of its tokens. -/
theorem yields_loop_atIndex_iff {tokens : List Token} {i : Nat} {s : Stmt} {g : Feed}
    (hi : i < (closed tokens).length) :
    loop.Yields (Feed.atIndex tokens i) s g ↔ ∃ j, i ≤ j ∧ j < (closed tokens).length ∧
      g = Feed.atIndex tokens j ∧ Grammar.Loop ((closed tokens).extract i (j + 1)) s := by
  rw [yields_loop_iff (Feed.live_atIndex tokens i)]
  constructor
  · rintro ⟨us, hmoves, hspells⟩
    obtain ⟨j, hij, hj, rfl, rfl⟩ := (Feed.moves_atIndex_iff hi).mp hmoves
    rw [Feed.current_cons_extract hij hj] at hspells
    exact ⟨j, hij, hj, rfl, hspells⟩
  · rintro ⟨j, hij, hj, rfl, hspells⟩
    refine ⟨_, Feed.moves_atIndex hij hj, ?_⟩
    rw [Feed.current_cons_extract hij hj]
    exact hspells

/-- A loop that fails has raised a diagnostic. -/
theorem errors_ne_nil_of_loop {f : Feed} (hnone : (loop f).value = none) :
    (loop f).notes.errors ≠ [] := by
  intro hquiet
  obtain ⟨s, g, hyields⟩ := loud_loop f hquiet
  rw [hyields.value] at hnone
  exact absurd hnone (by simp)

/-- **One failed construct, one diagnostic.** At every index of a token list, an expression, a
condition, a declaration or an assignment is read without a diagnostic, or it fails with exactly
one. A loop that fails raises at least one; and a loop is read without any exactly where the tokens
from that index on, up to the one where reading stops, are a loop with its braces, the assignments
of its body and its condition. -/
theorem constructs_settled_atIndex (tokens : List Token) (i : Nat)
    (hi : i < (closed tokens).length) :
    (∀ p ∈ [operand, expression, comparison, condition], p.Settled (Feed.atIndex tokens i)) ∧
      (∀ p ∈ [declaration, assignment], p.Settled (Feed.atIndex tokens i)) ∧
      ((loop (Feed.atIndex tokens i)).value = none →
        (loop (Feed.atIndex tokens i)).notes.errors ≠ []) ∧
      ∀ s g, loop.Yields (Feed.atIndex tokens i) s g ↔
        ∃ j, i ≤ j ∧ j < (closed tokens).length ∧ g = Feed.atIndex tokens j ∧
          Grammar.Loop ((closed tokens).extract i (j + 1)) s := by
  refine ⟨?_, ?_, errors_ne_nil_of_loop, fun s g => yields_loop_atIndex_iff hi⟩
  · simp only [List.forall_mem_cons]
    exact ⟨settled_operand _, settled_expression _, settled_comparison _, settled_condition _,
      by simp⟩
  · simp only [List.forall_mem_cons]
    exact ⟨settled_declaration _, settled_assignment _, by simp⟩

/-- A loop behind a sign. -/
def loopBehindSign : List Token :=
  [⟨⟨.symbol, "+"⟩, ⟨1, 1⟩⟩, ⟨⟨.reserved, "do"⟩, ⟨1, 3⟩⟩, ⟨⟨.symbol, "\x7b"⟩, ⟨1, 6⟩⟩,
    ⟨⟨.identifier, "a"⟩, ⟨2, 1⟩⟩, ⟨⟨.symbol, "="⟩, ⟨2, 3⟩⟩, ⟨⟨.number, "1"⟩, ⟨2, 5⟩⟩,
    ⟨⟨.symbol, ";"⟩, ⟨2, 6⟩⟩, ⟨⟨.symbol, "\x7d"⟩, ⟨3, 1⟩⟩, ⟨⟨.reserved, "while"⟩, ⟨3, 3⟩⟩,
    ⟨⟨.symbol, "("⟩, ⟨3, 9⟩⟩, ⟨⟨.identifier, "a"⟩, ⟨3, 10⟩⟩, ⟨⟨.symbol, "=="⟩, ⟨3, 12⟩⟩,
    ⟨⟨.number, "9"⟩, ⟨3, 15⟩⟩, ⟨⟨.symbol, ")"⟩, ⟨3, 16⟩⟩, ⟨⟨.symbol, ";"⟩, ⟨3, 17⟩⟩]

/-- From the sign in front of a loop, a declaration is settled and the loop is read to its last
token. -/
theorem constructs_settled_atIndex_loopBehindSign :
    1 < (closed loopBehindSign).length ∧
      declaration.Settled (Feed.atIndex loopBehindSign 1) ∧
      loop.Yields (Feed.atIndex loopBehindSign 1)
        (.loop [.assignment "a" (.number "1" ⟨2, 5⟩) ⟨2, 1⟩]
          (.binary (.identifier "a" ⟨3, 10⟩) "==" (.number "9" ⟨3, 15⟩) ⟨3, 10⟩) ⟨1, 3⟩)
        (Feed.atIndex loopBehindSign 14) := by
  have hindex : 1 < (closed loopBehindSign).length := by decide
  have hbody : Grammar.Body ((loopBehindSign.drop 3).take 4)
      [.assignment "a" (.number "1" ⟨2, 5⟩) ⟨2, 1⟩] :=
    @Grammar.Body.cons _ _ [] _ [] rfl (by decide) (.mk rfl (.operand rfl) rfl) .nil
  have hloop : Grammar.Loop ((closed loopBehindSign).extract 1 15)
      (.loop [.assignment "a" (.number "1" ⟨2, 5⟩) ⟨2, 1⟩]
        (.binary (.identifier "a" ⟨3, 10⟩) "==" (.number "9" ⟨3, 15⟩) ⟨3, 10⟩) ⟨1, 3⟩) :=
    .mk rfl hbody rfl rfl (.mk rfl (.mk rfl rfl rfl) rfl rfl)
  obtain ⟨-, hstatements, -, hiff⟩ := constructs_settled_atIndex loopBehindSign 1 hindex
  exact ⟨hindex, hstatements declaration List.mem_cons_self,
    (hiff _ _).mpr ⟨14, by decide, by decide, rfl, hloop⟩⟩

end Parse

end DoWhile
