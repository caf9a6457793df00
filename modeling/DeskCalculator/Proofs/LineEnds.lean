import DeskCalculator.CommandLine.Run
import DeskCalculator.Proofs.Blanks
import Mathlib.Data.List.Forall2

namespace DeskCalculator

/-- Where a text begins, the bytes in front of it are cut between two characters. -/
theorem isValidUTF8_append_iff {bytes ending : ByteArray} (hending : ending.IsValidUTF8) :
    (bytes ++ ending).IsValidUTF8 ↔ bytes.IsValidUTF8 := by
  refine ⟨fun h => ?_, fun h => h.append hending⟩
  let border : String.Pos.Raw := ⟨bytes.size⟩
  let whole : String := .ofByteArray (bytes ++ ending) h
  have hsize : whole.rawEndPos.byteIdx = bytes.size + ending.size := ByteArray.size_append
  have hle : border ≤ whole.rawEndPos := by
    rw [String.Pos.Raw.le_iff, hsize]
    exact Nat.le_add_right _ _
  have hback : (whole.toByteArray.extract border.byteIdx whole.rawEndPos.byteIdx).IsValidUTF8 := by
    rw [hsize, ByteArray.extract_append_eq_right rfl rfl]
    exact hending
  have hborder : border.IsValid whole := by
    rcases (String.Pos.Raw.isValidUTF8_extract_iff _ _ hle (Nat.le_refl _)).mp hback with
      hend | ⟨hvalid, -⟩
    · rw [hend]
      exact String.Pos.Raw.isValid_rawEndPos
    · exact hvalid
  have hfront := hborder.isValidUTF8_extract_zero
  rwa [ByteArray.extract_append_eq_left rfl] at hfront

theorem fromUTF8?_append (bytes : ByteArray) (ending : String) :
    String.fromUTF8? (bytes ++ ending.toByteArray) = (String.fromUTF8? bytes).map (· ++ ending) := by
  by_cases h : bytes.IsValidUTF8
  · have hwhole := (isValidUTF8_append_iff ending.isValidUTF8).mpr h
    simp only [String.fromUTF8?, dif_pos h, dif_pos hwhole, Option.map_some]
    exact congrArg some (String.toByteArray_inj.mp rfl)
  · have hwhole := mt (isValidUTF8_append_iff ending.isValidUTF8).mp h
    simp only [String.fromUTF8?, dif_neg h, dif_neg hwhole, Option.map_none]

theorem Blank.trim_append {ending : String} (h : ∀ c ∈ ending.toList, isBlank c = true)
    (text : String) : trim (text ++ ending) = trim text := by
  have happend := trim_append_blanks h text.toList
  rwa [← String.toList_append, String.ofList_toList, String.ofList_toList] at happend

theorem Session.handleLine_congr {a b : String} (h : Blank.trim a = Blank.trim b) (writer : Writer)
    (session : Session) : session.handleLine writer a = session.handleLine writer b := by
  simp only [handleLine, h]

namespace CommandLine

def carriageReturn : UInt8 := 13

/-- The line is this content and what ends it: a newline, a carriage return and a newline, or the
end of the input. -/
inductive Ended (content : List UInt8) : List UInt8 → Prop
  | newline : Ended content (content ++ [newline])
  | carriageReturn : Ended content (content ++ [carriageReturn, CommandLine.newline])
  | endOfInput : Ended content content

theorem Ended.exists_ending {content line : List UInt8} (h : Ended content line) :
    ∃ ending : String, line.toByteArray = content.toByteArray ++ ending.toByteArray ∧
      ∀ c ∈ ending.toList, Blank.isBlank c = true := by
  cases h with
  | newline => exact ⟨"\n", List.toByteArray_append, List.all_eq_true.mp rfl⟩
  | carriageReturn => exact ⟨"\r\n", List.toByteArray_append, List.all_eq_true.mp rfl⟩
  | endOfInput => exact ⟨"", by simp, by simp⟩

theorem turn_ended {content line : List UInt8} (h : Ended content line) (session : Session) :
    turn session line = turn session content := by
  obtain ⟨ending, hbytes, hblank⟩ := h.exists_ending
  simp only [turn]
  rw [hbytes, fromUTF8?_append]
  cases String.fromUTF8? content.toByteArray with
  | none => rfl
  | some text =>
      simp only [Option.map_some]
      rw [Session.handleLine_congr (Blank.trim_append hblank text)]

def SameContent (a b : List UInt8) : Prop := ∃ content, Ended content a ∧ Ended content b

theorem turn_sameContent {a b : List UInt8} (h : SameContent a b) (session : Session) :
    turn session a = turn session b := by
  obtain ⟨content, ha, hb⟩ := h
  rw [turn_ended ha, turn_ended hb]

theorem converse_sameContent {a b : List (List UInt8)} (h : List.Forall₂ SameContent a b)
    (session : Session) : converse session a = converse session b := by
  induction h generalizing session with
  | nil => rfl
  | cons hline _ ih => simp only [converse, turn_sameContent hline, ih]

end CommandLine

end DeskCalculator
