import Mathlib.Data.List.Lex

namespace DeskCalculator.ByteOrder

def bytes (text : String) : List UInt8 := text.toByteArray.data.toList

variable {a b : String} {c d : Char}

theorem bytes_eq_flatMap (text : String) : bytes text = text.toList.flatMap String.utf8EncodeChar := by
  rw [bytes, ← String.ofList_toList (s := text), String.toByteArray_ofList, List.utf8Encode,
    List.toList_data_toByteArray, String.toList_ofList]

/-- The first byte is larger the more bytes there are, and there are more for larger code points.
Where there are as many, the bytes hold the digits of the code points from the highest one on. -/
theorem utf8EncodeChar_append_lt (h : c < d) (back front : List UInt8) :
    String.utf8EncodeChar c ++ back < String.utf8EncodeChar d ++ front := by
  have hlt : c.val.toNat < d.val.toNat := h
  have hbound : d.val.toNat < 0x110000 := by
    rcases d.valid with hlow | ⟨-, hhigh⟩
    · exact hlow.trans (by decide)
    · exact hhigh
  fun_cases String.utf8EncodeChar c <;> fun_cases String.utf8EncodeChar d <;>
  · simp only [List.cons_append, List.nil_append, List.cons_lt_cons_iff, UInt8.lt_iff_toNat_lt,
      ← UInt8.toNat_inj, UInt8.toNat_ofNat']
    simp (disch := omega) only [Nat.mod_eq_of_lt]
    omega

theorem flatMap_lt_flatMap {front back : List Char} (h : front < back) :
    front.flatMap String.utf8EncodeChar < back.flatMap String.utf8EncodeChar := by
  induction h with
  | @nil d rest =>
      rw [List.flatMap_nil, List.flatMap_cons]
      fun_cases String.utf8EncodeChar d <;> exact .nil
  | rel h => exact utf8EncodeChar_append_lt h _ _
  | cons _ ih => exact List.append_left_lt ih

theorem bytes_lt_bytes (h : a < b) : bytes a < bytes b := by
  rw [bytes_eq_flatMap, bytes_eq_flatMap]
  exact flatMap_lt_flatMap h

theorem bytes_lt_bytes_iff : bytes a < bytes b ↔ a < b := by
  refine ⟨fun h => ?_, bytes_lt_bytes⟩
  rcases Std.lt_trichotomy a b with hlt | rfl | hgt
  · exact hlt
  · exact absurd h (List.lt_irrefl _)
  · exact absurd h (List.lt_asymm (bytes_lt_bytes hgt))

theorem bytes_le_bytes_iff : bytes a ≤ bytes b ↔ a ≤ b := by
  rw [← List.not_lt, bytes_lt_bytes_iff]
  exact Std.not_lt

end DeskCalculator.ByteOrder
