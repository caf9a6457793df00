import DeskCalculator.Proofs.Trimming

namespace DeskCalculator.Token

open Character

theorem firstForeign?_append (front back : List Char) :
    firstForeign? (front ++ back) =
      (firstForeign? front).or ((firstForeign? back).map fun p => (p.1, p.2 + front.length)) := by
  have hback : (back.zipIdx front.length).find? (fun p => !isAllowed p.1) =
      (firstForeign? back).map fun p => (p.1, p.2 + front.length) := by
    rw [List.zipIdx_eq_map_add, List.find?_map]
    simp only [Nat.add_comm front.length]
    rfl
  rw [firstForeign?, List.zipIdx_append, List.find?_append, Nat.zero_add, hback, ← firstForeign?]

theorem tokenize_eq_error_iff {text : String} {fault : Fault} :
    tokenize text = .error fault ↔
      ∃ c index, firstForeign? text.toList = some (c, index) ∧ fault = .unknownCharacter c index := by
  rw [tokenize]
  cases firstForeign? text.toList with
  | none => simp
  | some found =>
      obtain ⟨c, index⟩ := found
      simp [eq_comm]

theorem firstForeign?_spaced (front back : String) :
    firstForeign? (front ++ " " ++ back).toList =
      (firstForeign? front.toList).or
        ((firstForeign? back.toList).map fun p => (p.1, p.2 + front.length + 1)) := by
  have hlength : (front ++ " ").toList.length = front.length + 1 := by
    rw [String.length_toList, String.length_append]
    rfl
  rw [String.toList_append, firstForeign?_append, hlength, String.toList_append, firstForeign?_append]
  have hspace : firstForeign? " ".toList = none := rfl
  rw [hspace, Option.map_none, Option.or_none]
  rfl

theorem tokenize_spaced {front back : String} {tokens later : List Token}
    (hfront : tokenize front = .ok tokens) (hback : tokenize back = .ok later) :
    tokenize (front ++ " " ++ back) = .ok (tokens ++ later) := by
  rw [tokenize_eq_ok_iff] at hfront hback ⊢
  have hspaced : (front ++ " " ++ back).toList = front.toList ++ ' ' :: back.toList := by simp
  rw [hspaced]
  exact hfront.append_space hback

/-- A space keeps two texts apart: all that can be told of them together follows from what can be
told of either. -/
theorem tokenize_append_space (front back : String) :
    (∀ fault, tokenize front = .error fault → tokenize (front ++ " " ++ back) = .error fault) ∧
    (∀ tokens fault, tokenize front = .ok tokens → tokenize back = .error fault →
      ∃ c index, fault = .unknownCharacter c index ∧
        tokenize (front ++ " " ++ back) = .error (.unknownCharacter c (index + front.length + 1))) ∧
    ∀ tokens later, tokenize front = .ok tokens → tokenize back = .ok later →
      tokenize (front ++ " " ++ back) = .ok (tokens ++ later) := by
  refine ⟨fun fault h => ?_, fun tokens fault hfront hback => ?_, fun _ _ => tokenize_spaced⟩
  · obtain ⟨c, index, hforeign, rfl⟩ := tokenize_eq_error_iff.mp h
    refine tokenize_eq_error_iff.mpr ⟨c, index, ?_, rfl⟩
    rw [firstForeign?_spaced, hforeign, Option.some_or]
  · obtain ⟨c, index, hforeign, rfl⟩ := tokenize_eq_error_iff.mp hback
    refine ⟨c, index, rfl, tokenize_eq_error_iff.mpr ⟨c, _, ?_, rfl⟩⟩
    have hnone := (firstForeign?_eq_none_iff _).mpr (tokenize_eq_ok_iff_lex.mp hfront).1
    rw [firstForeign?_spaced, hnone, hforeign]
    rfl

theorem tokenize_append_space_signs :
    tokenize ("2 -" ++ " " ++ "-5") = .ok [.number "2", .operator .subtract, .number "-5"] ∧
      tokenize ("x^-" ++ " " ++ "3=") = .error (.unknownCharacter '=' 5) ∧
      tokenize ("1#" ++ " " ++ "=") = .error (.unknownCharacter '#' 1) := by
  refine ⟨(tokenize_append_space "2 -" "-5").2.2 _ _ rfl rfl, ?_,
    (tokenize_append_space "1#" "=").1 _ rfl⟩
  obtain ⟨c, index, hfault, hspaced⟩ := (tokenize_append_space "x^-" "3=").2.1 _ _ rfl rfl
  cases hfault
  exact hspaced

end DeskCalculator.Token
