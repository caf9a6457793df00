import DeskCalculator.Proofs.OpenGroups
import DeskCalculator.Proofs.OperandOrder
import DeskCalculator.Proofs.ShuntingYard
import Mathlib.Data.List.TakeWhile

namespace DeskCalculator

namespace Token

def grouped (inner : List Token) : List Token := .openParen :: inner ++ [.closeParen]

end Token

namespace Postfix

open Token Parentheses

variable {tokens piece result front back inner : List Token} {operand : Token}

theorem takeWhile_append_group {p : Pending → Bool} (hp : p .group = false)
    (above below : List Pending) :
    (above ++ .group :: below).takeWhile p = above.takeWhile p := by
  induction above with
  | nil => exact List.takeWhile_cons_of_neg (by simp [hp])
  | cons top above ih => simp only [List.cons_append, List.takeWhile_cons, ih]

theorem released_append_group (above below : List Pending) (token : Token) :
    released (above ++ .group :: below) token = released above token := by
  cases token with
  | operator op => exact congrArg operators (takeWhile_append_group rfl above below)
  | closeParen => exact congrArg operators (takeWhile_append_group rfl above below)
  | number | identifier | symbol | openParen => rfl

theorem emitted_append_group (above : List Pending)
    (h : balancedTokens (above.count .group) tokens = true) (below : List Pending) :
    emitted (above ++ .group :: below) tokens = emitted above tokens := by
  induction tokens generalizing above with
  | nil => rfl
  | cons token rest ih =>
      obtain ⟨htoken, hrest⟩ := balancedTokens_cons_iff.mp h
      rw [emitted, emitted, released_append_group,
        pushed_append_group fun hclose => List.count_pos_iff.mp (htoken hclose), ih]
      rw [count_group_pushed]
      exact hrest

/-- On any stack the tokens go out as these, and they leave the stack as it was. -/
structure GoesOutAs (tokens result : List Token) : Prop where
  emits (stack : List Pending) : emitted stack tokens = result
  keeps (stack : List Pending) : tokens.foldl pushed stack = stack

theorem goesOutAs_operand (h : operand.isOperand = true) : GoesOutAs [operand] [operand] := by
  cases operand with
  | number | identifier => exact ⟨fun _ => rfl, fun _ => rfl⟩
  | operator | symbol | openParen | closeParen => cases h

/-- Whatever lies around a balanced group, closing it lets out all that still waits for its inside,
and nothing else. -/
theorem goesOutAs_grouped (h : balancedTokens 0 inner = true) :
    GoesOutAs (grouped inner) (order [] inner) := by
  constructor
  · intro stack
    have hinside : emitted (.group :: stack) inner = emitted [] inner := emitted_append_group [] h stack
    have hfold : inner.foldl pushed (.group :: stack) = inner.foldl pushed [] ++ .group :: stack :=
      foldl_pushed_append_group [] h stack
    have hnone := ((balancedTokens_iff_group [] inner).mp h).2
    calc emitted stack (grouped inner)
      _ = emitted (.group :: stack) inner ++
            released (inner.foldl pushed (.group :: stack)) .closeParen := by
        simp [grouped, emitted, emitted_append, released, pushed]
      _ = emitted [] inner ++ operators (inner.foldl pushed []) := by
        rw [hinside, hfold, released_append_group, released,
          List.takeWhile_eq_self_iff.mpr (isOperator_of_no_group hnone)]
      _ = order [] inner := (order_eq [] inner).symm
  · intro stack
    rw [grouped, List.cons_append, List.foldl_cons, List.foldl_append]
    exact congrArg List.tail (dropWhile_foldl_pushed_group h stack)

theorem GoesOutAs.grouped (h : GoesOutAs piece result) : GoesOutAs (grouped piece) result := by
  constructor
  · intro stack
    have hout := h.emits (.group :: stack)
    have hkept := h.keeps (.group :: stack)
    simp [Token.grouped, emitted, emitted_append, released, pushed, hout, hkept, operators,
      Pending.isOperator]
  · intro stack
    have hkept := h.keeps (.group :: stack)
    simp [Token.grouped, pushed, hkept, Pending.isOperator]

theorem order_goesOutAs (h : GoesOutAs piece result) (front back : List Token) :
    order [] (front ++ piece ++ back) =
      emitted [] front ++ result ++ order (front.foldl pushed []) back := by
  rw [order_append, emitted_append, List.foldl_append, h.emits, h.keeps]

theorem ofInfix_goesOutAs (h : GoesOutAs piece result)
    (hfront : ∀ character, .symbol character ∉ front)
    (hpiece : ∀ character, .symbol character ∉ piece) (hback : ∀ character, .symbol character ∉ back) :
    ofInfix (front ++ piece ++ back) =
      .ok (emitted [] front ++ result ++ order (front.foldl pushed []) back) := by
  rw [← order_goesOutAs h, ofInfix_eq_ok]
  apply forall_symbol?_eq_none_iff.mpr
  intro character hmem
  simp [hfront character, hpiece character, hback character] at hmem

theorem symbol_not_mem_grouped (h : ∀ character, .symbol character ∉ inner) (character : Char) :
    .symbol character ∉ grouped inner := by
  simp [grouped, h character]

theorem symbol_not_mem_operand (h : operand.isOperand = true) (character : Char) :
    .symbol character ∉ [operand] := by
  cases operand with
  | number | identifier => simp
  | operator | symbol | openParen | closeParen => cases h

theorem mem_of_mem_emitted (h : operand.isOperand = true) (hmem : operand ∈ emitted [] front) :
    operand ∈ front := by
  have hout : operand ∈ order [] front := by
    rw [order_eq]
    exact List.mem_append_left _ hmem
  exact (mem_order_iff h).mp hout

/-- A balanced group goes out where an operand in its place would have, whatever stands around it.
So nothing changes with a second pair of parentheses, with a pair around the whole text or with a
pair around an operand. -/
theorem ofInfix_group (hfront : ∀ character, .symbol character ∉ front)
    (hback : ∀ character, .symbol character ∉ back) (hinner : ∀ character, .symbol character ∉ inner)
    (hbalanced : balancedTokens 0 inner = true) :
    (∀ operand, operand.isOperand = true → operand ∉ front → operand ∉ back →
      ∃ before inside behind,
        ofInfix (front ++ [operand] ++ back) = .ok (before ++ [operand] ++ behind) ∧
        operand ∉ before ∧ operand ∉ behind ∧ ofInfix inner = .ok inside ∧
        ofInfix (front ++ grouped inner ++ back) = .ok (before ++ inside ++ behind)) ∧
    ofInfix (front ++ grouped (grouped inner) ++ back) = ofInfix (front ++ grouped inner ++ back) ∧
    ofInfix (grouped inner) = ofInfix inner ∧
    ∀ operand, operand.isOperand = true →
      ofInfix (front ++ grouped [operand] ++ back) = ofInfix (front ++ [operand] ++ back) := by
  have hgroup := goesOutAs_grouped hbalanced
  have hfree := symbol_not_mem_grouped hinner
  have hinside : ofInfix inner = .ok (order [] inner) :=
    ofInfix_eq_ok (forall_symbol?_eq_none_iff.mpr hinner)
  refine ⟨fun operand hoperand hnotfront hnotback => ?_, ?_, ?_, fun operand hoperand => ?_⟩
  · exact ⟨_, _, _, ofInfix_goesOutAs (goesOutAs_operand hoperand) hfront
      (symbol_not_mem_operand hoperand) hback, mt (mem_of_mem_emitted hoperand) hnotfront,
      mt (mem_order_iff hoperand).mp hnotback, hinside, ofInfix_goesOutAs hgroup hfront hfree hback⟩
  · rw [ofInfix_goesOutAs hgroup.grouped hfront (symbol_not_mem_grouped hfree) hback,
      ofInfix_goesOutAs hgroup hfront hfree hback]
  · have hwhole : ofInfix ([] ++ grouped inner ++ []) = _ := ofInfix_goesOutAs hgroup nofun hfree nofun
    rw [hinside]
    simpa [emitted, order, operators] using hwhole
  · have hone := goesOutAs_operand hoperand
    have hbare := symbol_not_mem_operand hoperand
    rw [ofInfix_goesOutAs hone.grouped hfront (symbol_not_mem_grouped hbare) hback,
      ofInfix_goesOutAs hone hfront hbare hback]

theorem ofInfix_group_between_strays :
    (∃ before inside behind,
      ofInfix [.closeParen, .identifier "x", .operator .multiply, .identifier "m", .operator .power,
          .openParen, .number "2"] = .ok (before ++ [.identifier "m"] ++ behind) ∧
        ofInfix [.number "1", .operator .subtract, .openParen, .identifier "m", .closeParen] =
          .ok inside ∧
        ofInfix [.closeParen, .identifier "x", .operator .multiply, .openParen, .number "1",
            .operator .subtract, .openParen, .identifier "m", .closeParen, .closeParen,
            .operator .power, .openParen, .number "2"] = .ok (before ++ inside ++ behind)) ∧
      ofInfix [.closeParen, .identifier "x", .operator .multiply, .openParen, .identifier "x",
          .closeParen, .operator .power, .openParen, .number "2"] =
        .ok [.identifier "x", .identifier "x", .number "2", .operator .power, .operator .multiply] := by
  have hfront (character : Char) :
      .symbol character ∉ [Token.closeParen, .identifier "x", .operator .multiply] := by simp
  have hback (character : Char) :
      .symbol character ∉ [Token.operator .power, .openParen, .number "2"] := by simp
  have hinner (character : Char) : .symbol character ∉
      [Token.number "1", .operator .subtract, .openParen, .identifier "m", .closeParen] := by simp
  obtain ⟨hreplaced, -, -, hbare⟩ := ofInfix_group hfront hback hinner rfl
  constructor
  · obtain ⟨before, inside, behind, hone, -, -, hinside, hgroup⟩ :=
      hreplaced (.identifier "m") rfl (by decide) (by decide)
    exact ⟨before, inside, behind, hone, hinside, hgroup⟩
  · exact (hbare (.identifier "x") rfl).trans rfl

end Postfix

end DeskCalculator
