import DeskCalculator.Expression
import DeskCalculator.Proofs.Lexing
import Mathlib.Data.List.Induction

namespace DeskCalculator

open Character Token

theorem Character.eq_space_of_isBlank {c : Char} (h : isAllowed c = true)
    (hblank : Blank.isBlank c = true) : c = ' ' := by
  have hrange : c.toNat ≤ 32 ∨ 127 ≤ c.toNat := by
    simp only [Blank.isBlank, Blank.ranges, List.any_cons, List.any_nil, Bool.or_eq_true,
      Bool.and_eq_true, decide_eq_true_eq, Bool.or_false] at hblank
    omega
  rcases Lexeme.exists_of_isAllowed h with ⟨kind, hc⟩ | hc | hc
  · have := Lexeme.bounds_of_holds hc
    omega
  · rcases eq_of_isSymbol hc with rfl | rfl | rfl | rfl | rfl | rfl | rfl | rfl <;> cases hblank
  · exact hc

namespace Blank

theorem trimRight_append_singleton (chars : List Char) (c : Char) :
    trimRight (chars ++ [c]) = if isBlank c then trimRight chars else chars ++ [c] := by
  cases hc : isBlank c <;> simp [trimRight, hc]

theorem mem_of_mem_trim {text : String} {c : Char} (h : c ∈ (trim text).toList) :
    c ∈ text.toList := by
  rw [trim, String.toList_ofList, trimRight, List.mem_reverse] at h
  have hleft := List.mem_reverse.mp ((List.dropWhile_suffix isBlank).subset h)
  exact (List.dropWhile_suffix isBlank).subset hleft

end Blank

namespace Token

theorem tokenize_eq_ok_iff_lex {text : String} {tokens : List Token} :
    tokenize text = .ok tokens ↔
      (∀ c ∈ text.toList, isAllowed c = true) ∧ lex true text.toList = tokens := by
  rw [← firstForeign?_eq_none_iff, tokenize]
  cases hf : firstForeign? text.toList <;> simp

theorem lex_trimLeft {chars : List Char} (h : ∀ c ∈ chars, isAllowed c = true) :
    lex true (Blank.trimLeft chars) = lex true chars := by
  induction chars with
  | nil => rfl
  | cons c rest ih =>
      obtain ⟨hc, hrest⟩ := List.forall_mem_cons.mp h
      rw [Blank.trimLeft, List.dropWhile_cons]
      split
      next hblank =>
        obtain rfl := eq_space_of_isBlank hc hblank
        rw [lex_space]
        exact ih hrest
      next => rfl

theorem lex_append_space {b : Bool} {front back : List Char} (hfront : ∀ c ∈ front, isAllowed c = true)
    (hback : ∀ c ∈ back, isAllowed c = true) :
    lex b (front ++ ' ' :: back) = lex b front ++ lex true back := by
  obtain ⟨tokens, hlexes⟩ := exists_lexes b front hfront
  obtain ⟨later, hlater⟩ := exists_lexes true back hback
  rw [hlexes.lex_eq, hlater.lex_eq, (hlexes.append_space hlater).lex_eq]

theorem lex_trimRight {b : Bool} {chars : List Char} (h : ∀ c ∈ chars, isAllowed c = true) :
    lex b (Blank.trimRight chars) = lex b chars := by
  induction chars using List.reverseRecOn with
  | nil => rfl
  | append_singleton front c ih =>
      obtain ⟨hfront, hc⟩ := List.forall_mem_append.mp h
      rw [Blank.trimRight_append_singleton]
      split
      next hblank =>
        obtain rfl := eq_space_of_isBlank (hc c (by simp)) hblank
        rw [ih hfront, lex_append_space hfront (List.forall_mem_nil _), lex, List.append_nil]
      next => rfl

theorem tokenize_trim {text : String} {tokens : List Token} (h : tokenize text = .ok tokens) :
    tokenize (Blank.trim text) = .ok tokens := by
  obtain ⟨hallowed, hlex⟩ := tokenize_eq_ok_iff_lex.mp h
  have hleft : ∀ c ∈ Blank.trimLeft text.toList, isAllowed c = true :=
    fun c hc => hallowed c ((List.dropWhile_suffix Blank.isBlank).subset hc)
  refine tokenize_eq_ok_iff_lex.mpr ⟨fun c hc => hallowed c (Blank.mem_of_mem_trim hc), ?_⟩
  rw [Blank.trim, String.toList_ofList, lex_trimRight hleft, lex_trimLeft hallowed, hlex]

end Token

end DeskCalculator
