import DeskCalculator.Command
import DeskCalculator.Statement
import DeskCalculator.Proofs.Conservation
import Mathlib.Data.List.TakeWhile

namespace DeskCalculator

theorem bne_of_not_mem {c : Char} {chars : List Char} (h : c ∉ chars) : ∀ d ∈ chars, (d != c) = true :=
  fun _ hd => bne_iff_ne.mpr (ne_of_mem_of_not_mem hd h)

namespace Command

def words : List String := ["exit", "quit", "vars", "help", "?", "version"]

theorem ofWord?_eq_none_iff {word : String} : ofWord? word = none ↔ word ∉ words := by
  unfold ofWord?
  split <;> simp_all [words]

theorem ofWord?_eq_exit_iff {word : String} :
    ofWord? word = some .exit ↔ word = "exit" ∨ word = "quit" := by
  unfold ofWord?
  split <;> simp_all

theorem pieces_fst (chars : List Char) : (pieces chars).1 = chars.takeWhile (· != ' ') := by
  induction chars with
  | nil => rfl
  | cons c rest ih =>
      by_cases hc : c = ' '
      · simp [pieces, hc]
      · simp [pieces, hc, ih]

theorem pieces_snd_eq_nil_iff {chars : List Char} : (pieces chars).2 = [] ↔ ' ' ∉ chars := by
  induction chars with
  | nil => simp [pieces]
  | cons c rest ih =>
      by_cases hc : c = ' '
      · simp [pieces, hc]
      · simp [pieces, hc, Ne.symm hc, ih]

theorem ofLine?_eq_none_iff {line : String} : ofLine? line = none ↔ firstWord line ∉ words :=
  ofWord?_eq_none_iff

theorem exists_of_firstWord {line : String} (h : firstWord line ∈ words) :
    ∃ command, ofLine? line = some command :=
  Option.ne_none_iff_exists'.mp (mt ofLine?_eq_none_iff.mp (not_not_intro h))

theorem sign_not_mem_of_mem_words {word : String} (h : word ∈ words) : '=' ∉ word.toList := by
  have hwords : ∀ word ∈ words, '=' ∉ word.toList := by decide
  exact hwords word h

theorem arguments_eq_nil_iff {line : String} : arguments line = [] ↔ ' ' ∉ line.toList := by
  rw [arguments, List.map_eq_nil_iff, pieces_snd_eq_nil_iff]

theorem firstWord_of_no_space {line : String} (h : ' ' ∉ line.toList) : firstWord line = line := by
  rw [firstWord, pieces_fst, List.takeWhile_eq_self_iff.mpr (bne_of_not_mem h), String.ofList_toList]

theorem firstWord_mem_words_of_exit {line : String} (h : line = "exit" ∨ line = "quit") :
    firstWord line ∈ words := by
  rcases h with rfl | rfl <;> decide

theorem flow_eq_exit_iff {command : Command} {given : List String} :
    command.flow given = .exit ↔ command = .exit ∧ given = [] := by
  cases command <;> simp [flow]

/-- Only the bare words end a session. Behind a space there is an argument, and a command
that is given one is not obeyed. -/
theorem exits_iff {command : Command} {line : String} (h : ofLine? line = some command) :
    command.flow (arguments line) = .exit ↔ line = "exit" ∨ line = "quit" := by
  rw [flow_eq_exit_iff, arguments_eq_nil_iff]
  constructor
  · rintro ⟨rfl, hspace⟩
    rw [ofLine?, firstWord_of_no_space hspace] at h
    exact ofWord?_eq_exit_iff.mp h
  · rintro (rfl | rfl)
    · exact ⟨(Option.some.inj h).symm, by decide⟩
    · exact ⟨(Option.some.inj h).symm, by decide⟩

end Command

namespace Blank

theorem count_trim {c : Char} (hc : isBlank c = false) (text : String) :
    (trim text).toList.count c = text.toList.count c := by
  rw [trim, String.toList_ofList, trimRight, List.count_reverse, count_dropWhile hc,
    List.count_reverse, trimLeft, count_dropWhile hc]

theorem mem_trim_iff {c : Char} (hc : isBlank c = false) {text : String} :
    c ∈ (trim text).toList ↔ c ∈ text.toList := by
  rw [← List.count_pos_iff, count_trim hc, List.count_pos_iff]

end Blank

namespace Statement

variable {line : String} {statement : Statement}

theorem ofLine_of_no_sign (h : '=' ∉ line.toList) :
    ofLine line = .ok ⟨defaultTarget, Blank.trim line⟩ := by
  have hnone : line.toList.dropWhile (· != '=') = [] :=
    List.dropWhile_eq_nil_iff.mpr (bne_of_not_mem h)
  simp only [ofLine, hnone]

theorem ofLine_of_sign {target expression : List Char} (hline : line.toList = target ++ '=' :: expression)
    (h : '=' ∉ target) :
    ofLine line =
      if isName (Blank.trim (String.ofList target)) then
        .ok ⟨Blank.trim (String.ofList target), Blank.trim (String.ofList expression)⟩
      else .error ⟨Blank.trim (String.ofList target)⟩ := by
  have hall := bne_of_not_mem h
  simp [ofLine, hline, List.dropWhile_append_of_pos hall, List.takeWhile_append_of_pos hall]

theorem ofLine_eq_ok_iff :
    ofLine line = .ok statement ↔
      ('=' ∉ line.toList ∧ statement = ⟨defaultTarget, Blank.trim line⟩) ∨
      ∃ target expression, line.toList = target ++ '=' :: expression ∧ '=' ∉ target ∧
        isName (Blank.trim (String.ofList target)) = true ∧
        statement = ⟨Blank.trim (String.ofList target), Blank.trim (String.ofList expression)⟩ := by
  constructor
  · intro hok
    by_cases h : '=' ∈ line.toList
    · obtain ⟨target, expression, hline, htarget⟩ := List.eq_append_cons_of_mem h
      rw [ofLine_of_sign hline htarget] at hok
      split at hok
      next hname => exact .inr ⟨target, expression, hline, htarget, hname, (Except.ok.inj hok).symm⟩
      next => cases hok
    · rw [ofLine_of_no_sign h] at hok
      exact .inl ⟨h, (Except.ok.inj hok).symm⟩
  · rintro (⟨h, rfl⟩ | ⟨target, expression, hline, htarget, hname, rfl⟩)
    · exact ofLine_of_no_sign h
    · rw [ofLine_of_sign hline htarget, if_pos hname]

theorem isName_iff {text : String} :
    isName text = true ↔ text ≠ "" ∧ ∀ c ∈ text.toList, c.isAlpha = true := by
  simp [isName, Character.isLetter]

theorem isName_of_ofLine (h : ofLine line = .ok statement) : isName statement.target = true := by
  rcases ofLine_eq_ok_iff.mp h with ⟨-, rfl⟩ | ⟨target, expression, -, -, hname, rfl⟩
  · have hdefault : isName defaultTarget = true := by decide
    exact hdefault
  · exact hname

/-- A line is cut once, so whatever equals signs it has beyond the first are in its expression. -/
theorem mem_expression_of_ofLine (h : ofLine line = .ok statement)
    (hcount : 2 ≤ line.toList.count '=') : '=' ∈ statement.expression.toList := by
  rcases ofLine_eq_ok_iff.mp h with ⟨hnone, -⟩ | ⟨target, expression, hline, htarget, -, rfl⟩
  · rw [List.count_eq_zero.mpr hnone] at hcount
    omega
  · rw [hline, List.count_append, List.count_cons_self, List.count_eq_zero.mpr htarget] at hcount
    apply List.count_pos_iff.mp
    rw [Blank.count_trim rfl, String.toList_ofList]
    omega

end Statement

end DeskCalculator
