import DeskCalculator.Expression
import Mathlib.Data.List.DropRight

namespace DeskCalculator.Blank

theorem trimLeft_append_cons {c : Char} (hc : isBlank c = false) (front back : List Char) :
    trimLeft (front ++ c :: back) = trimLeft front ++ c :: back := by
  rw [trimLeft, trimLeft, List.dropWhile_append, List.dropWhile_cons_of_neg (by simp [hc])]
  split
  next hfront => rw [List.isEmpty_iff.mp hfront, List.nil_append]
  next => rfl

theorem trimRight_append_cons {c : Char} (hc : isBlank c = false) (front back : List Char) :
    trimRight (front ++ c :: back) = front ++ c :: trimRight back := by
  have hleft := trimLeft_append_cons hc back.reverse front.reverse
  simp only [trimLeft] at hleft
  simp [trimRight, hleft]

theorem trimRight_cons (c : Char) (rest : List Char) :
    trimRight (c :: rest) =
      if trimRight rest = [] ∧ isBlank c = true then [] else c :: trimRight rest := by
  cases hc : isBlank c with
  | false =>
      rw [if_neg (by simp)]
      exact trimRight_append_cons hc [] rest
  | true =>
      simp only [trimRight, List.reverse_cons, List.dropWhile_append, List.isEmpty_iff,
        List.reverse_eq_nil_iff, and_true]
      split <;> simp [hc]

theorem trimLeft_trimRight (chars : List Char) :
    trimLeft (trimRight chars) = trimRight (trimLeft chars) := by
  induction chars with
  | nil => rfl
  | cons c rest ih =>
      rw [trimRight_cons]
      cases hc : isBlank c with
      | false => simp [trimLeft, hc, trimRight_cons]
      | true =>
          have hdrop : trimLeft (c :: rest) = trimLeft rest := List.dropWhile_cons_of_pos hc
          rw [hdrop, ← ih]
          split
          next hempty => rw [hempty.1]
          next => exact List.dropWhile_cons_of_pos hc

theorem trim_ofList_trimLeft (chars : List Char) :
    trim (String.ofList (trimLeft chars)) = trim (String.ofList chars) := by
  simp only [trim, String.toList_ofList, trimLeft, List.dropWhile_idempotent]

theorem trim_ofList_trimRight (chars : List Char) :
    trim (String.ofList (trimRight chars)) = trim (String.ofList chars) := by
  have hidem : trimRight (trimRight (trimLeft chars)) = trimRight (trimLeft chars) :=
    List.rdropWhile_idempotent isBlank (trimLeft chars)
  rw [trim, trim, String.toList_ofList, String.toList_ofList, trimLeft_trimRight, hidem]

theorem trimRight_append_blanks {blanks : List Char} (h : ∀ c ∈ blanks, isBlank c = true)
    (chars : List Char) : trimRight (chars ++ blanks) = trimRight chars := by
  have hblanks : ∀ c ∈ blanks.reverse, isBlank c = true := fun c hc => h c (List.mem_reverse.mp hc)
  rw [trimRight, List.reverse_append, List.dropWhile_append_of_pos hblanks, trimRight]

theorem trim_append_blanks {blanks : List Char} (h : ∀ c ∈ blanks, isBlank c = true)
    (chars : List Char) : trim (String.ofList (chars ++ blanks)) = trim (String.ofList chars) := by
  rw [← trim_ofList_trimRight, trimRight_append_blanks h, trim_ofList_trimRight]

theorem trim_blanks_append {blanks : List Char} (h : ∀ c ∈ blanks, isBlank c = true)
    (chars : List Char) : trim (String.ofList (blanks ++ chars)) = trim (String.ofList chars) := by
  have hblanks : trimLeft (blanks ++ chars) = trimLeft chars := List.dropWhile_append_of_pos h
  rw [← trim_ofList_trimLeft, hblanks, trim_ofList_trimLeft]

theorem trim_trim (text : String) : trim (trim text) = trim text :=
  calc trim (trim text)
    _ = trim (String.ofList (trimLeft text.toList)) := trim_ofList_trimRight _
    _ = trim (String.ofList text.toList) := trim_ofList_trimLeft _
    _ = trim text := by rw [String.ofList_toList]

theorem trim_surrounded {front back : String} (hfront : ∀ c ∈ front.toList, isBlank c = true)
    (hback : ∀ c ∈ back.toList, isBlank c = true) (text : String) :
    trim (front ++ text ++ back) = trim text := by
  have hsplit : front ++ text ++ back = String.ofList (front.toList ++ (text.toList ++ back.toList)) := by
    simp [String.append_assoc]
  rw [hsplit, trim_blanks_append hfront, trim_append_blanks hback, String.ofList_toList]

theorem toList_trim_of_mid {text : String} {front back : List Char} {c : Char} (hc : isBlank c = false)
    (h : text.toList = front ++ c :: back) :
    (trim text).toList = trimLeft front ++ c :: trimRight back := by
  rw [trim, String.toList_ofList, h, trimLeft_append_cons hc, trimRight_append_cons hc]

end DeskCalculator.Blank
