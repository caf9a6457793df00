import DeskCalculator.Proofs.LineKinds

namespace DeskCalculator

open Character

namespace Blank

theorem isBlank_of_isLetter {c : Char} (h : isLetter c = true) : isBlank c = false := by
  cases hblank : isBlank c with
  | false => rfl
  | true =>
      have hallowed : isAllowed c = true := by simp [isAllowed, h]
      rw [eq_space_of_isBlank hallowed hblank] at h
      cases h

theorem trimLeft_of_letters {text : String} (hne : text ≠ "")
    (h : ∀ c ∈ text.toList, isLetter c = true) (back : List Char) :
    trimLeft (text.toList ++ back) = text.toList ++ back := by
  obtain ⟨c, rest, htext⟩ := List.exists_cons_of_ne_nil (mt String.toList_eq_nil_iff.mp hne)
  have hc := isBlank_of_isLetter (h c (by simp [htext]))
  rw [htext]
  exact List.dropWhile_cons_of_neg (by simp [hc])

theorem trimRight_of_letters {chars : List Char} (h : ∀ c ∈ chars, isLetter c = true) :
    trimRight chars = chars := by
  induction chars with
  | nil => rfl
  | cons c rest ih =>
      obtain ⟨hc, hrest⟩ := List.forall_mem_cons.mp h
      rw [trimRight_cons, if_neg (by simp [isBlank_of_isLetter hc]), ih hrest]

theorem isBlank_of_mem_spaces {n : Nat} : ∀ c ∈ List.replicate n ' ', isBlank c = true := by
  intro c hc
  rw [List.eq_of_mem_replicate hc]
  rfl

end Blank

namespace Statement

variable {name : String}

def assignment (name : String) (before behind : Nat) (expression : String) : String :=
  name ++ String.ofList (List.replicate before ' ') ++ "=" ++
    String.ofList (List.replicate behind ' ') ++ expression

theorem assignment_zero (name expression : String) :
    assignment name 0 0 expression = name ++ "=" ++ expression := by
  simp [assignment]

theorem toList_assignment (name : String) (before behind : Nat) (expression : String) :
    (assignment name before behind expression).toList =
      (name.toList ++ List.replicate before ' ') ++
        '=' :: (List.replicate behind ' ' ++ expression.toList) := by
  simp [assignment]

theorem trim_of_isName (h : isName name = true) : Blank.trim name = name := by
  obtain ⟨hne, hletters⟩ := isName_iff.mp h
  have hleft := Blank.trimLeft_of_letters hne hletters []
  rw [List.append_nil] at hleft
  rw [Blank.trim, hleft, Blank.trimRight_of_letters hletters, String.ofList_toList]

theorem not_mem_of_isName (h : isName name = true) {c : Char} (hc : isLetter c = false) :
    c ∉ name.toList := by
  intro hmem
  have hletter : isLetter c = true := (isName_iff.mp h).2 c hmem
  rw [hletter] at hc
  cases hc

theorem ofLine_assignment (h : isName name = true) (before behind : Nat) (expression : String) :
    ofLine (assignment name before behind expression) = .ok ⟨name, Blank.trim expression⟩ := by
  have hsign : '=' ∉ name.toList ++ List.replicate before ' ' := by
    simp [not_mem_of_isName h (c := '=') rfl]
  rw [ofLine_of_sign (toList_assignment name before behind expression) hsign,
    Blank.trim_append_blanks Blank.isBlank_of_mem_spaces,
    Blank.trim_blanks_append Blank.isBlank_of_mem_spaces, String.ofList_toList,
    String.ofList_toList, trim_of_isName h, if_pos h]

theorem toList_trim_assignment (h : isName name = true) (before behind : Nat) (expression : String) :
    ∃ back, (Blank.trim (assignment name before behind expression)).toList =
      name.toList ++ List.replicate before ' ' ++ '=' :: back := by
  obtain ⟨hne, hletters⟩ := isName_iff.mp h
  rw [Blank.toList_trim_of_mid rfl (toList_assignment name before behind expression),
    Blank.trimLeft_of_letters hne hletters]
  exact ⟨_, rfl⟩

theorem firstWord_assignment (h : isName name = true) (before behind : Nat) (expression : String) :
    ∃ back, (Command.firstWord (Blank.trim (assignment name before behind expression))).toList =
      name.toList ++ if before = 0 then '=' :: back else [] := by
  obtain ⟨back, hback⟩ := toList_trim_assignment h before behind expression
  have hname := bne_of_not_mem (not_mem_of_isName h (c := ' ') rfl)
  rw [Command.firstWord, Command.pieces_fst, hback, List.append_assoc,
    List.takeWhile_append_of_pos hname, String.toList_ofList]
  cases before with
  | zero => exact ⟨back.takeWhile (· != ' '), by simp⟩
  | succ n => exact ⟨[], by simp [List.replicate_succ]⟩

theorem firstWord_unspaced (h : isName name = true) (behind : Nat) (expression : String) :
    Command.firstWord (Blank.trim (assignment name 0 behind expression)) ∉ Command.words := by
  obtain ⟨back, hback⟩ := firstWord_assignment h 0 behind expression
  exact fun hword => Command.sign_not_mem_of_mem_words hword (by simp [hback])

theorem firstWord_spaced (h : isName name = true) {before : Nat} (hspace : before ≠ 0) (behind : Nat)
    (expression : String) :
    Command.firstWord (Blank.trim (assignment name before behind expression)) = name := by
  obtain ⟨back, hback⟩ := firstWord_assignment h before behind expression
  rw [if_neg hspace, List.append_nil] at hback
  exact String.toList_injective hback

end Statement

namespace Session

open Statement

variable {name : String}

theorem onLine_assignment (h : isName name = true) {before : Nat}
    (hword : name ∈ Command.words → before = 0) (behind : Nat) (expression : String) :
    OnLine (assignment name before behind expression) ⟨name, Blank.trim expression⟩ := by
  constructor
  · by_cases hspace : before = 0
    · rw [hspace]
      exact firstWord_unspaced h behind expression
    · rw [firstWord_spaced h hspace]
      exact mt hword hspace
  · rw [ofLine_trim, ofLine_assignment h]

/-- Spaces around the equals sign do not matter, unless the name is the word of a command. With
a space behind it the line is that command, and refused for its arguments. -/
theorem handleLine_assignment (writer : Writer) (session : Session) (h : isName name = true)
    (before behind : Nat) (expression : String) :
    ((name ∈ Command.words → before = 0) →
      session.handleLine writer (assignment name before behind expression) =
        session.handleLine writer (name ++ "=" ++ expression)) ∧
    (name ∈ Command.words → before ≠ 0 →
      session.handleLine writer (assignment name before behind expression) =
        (session, (writer.write .commandOutput
          ("Error: command '" ++ name ++ "' has no arguments.\n")).map (Reply.mk .proceed))) := by
  constructor
  · intro hword
    rw [← assignment_zero, handleLine_of_onLine (onLine_assignment h hword behind expression),
      handleLine_of_onLine (onLine_assignment h (fun _ => rfl) 0 expression)]
  · intro hword hspace
    have hfirst := firstWord_spaced h hspace behind expression
    have hsign : '=' ∈ (assignment name before behind expression).toList := by
      simp [toList_assignment]
    have hgiven := Command.arguments_ne_nil_of_sign (hfirst.symm ▸ hword)
      ((Blank.mem_trim_iff rfl).mpr hsign)
    rw [handleLine_of_arguments (hfirst.symm ▸ hword) hgiven, hfirst]

theorem handleLine_assignment_words :
    (new true).handleLine .working "rate  = 2 ^ 3" = (new true).handleLine .working "rate= 2 ^ 3" ∧
      (new true).handleLine .broken "vars=  5" = (new true).handleLine .broken "vars=5" ∧
      (new true).handleLine .working "vars = 5" =
        (new true, .ok ⟨.proceed, "Error: command 'vars' has no arguments.\n"⟩) := by
  have hrate : isName "rate" = true := rfl
  have hvars : isName "vars" = true := rfl
  exact ⟨(handleLine_assignment .working (new true) hrate 2 0 " 2 ^ 3").1 (by decide),
    (handleLine_assignment .broken (new true) hvars 0 2 "5").1 (fun _ => rfl),
    (handleLine_assignment .working (new true) hvars 1 1 "5").2 (by decide) (by decide)⟩

theorem handleLine_spaced_command_word :
    isName "vars" = true ∧ '=' ∉ "5".toList ∧ assignment "vars" 1 1 "5" = "vars = 5" ∧
      ((new false).handleLine .working "vars = 5").2 =
        .ok ⟨.proceed, "Error: command 'vars' has no arguments.\n"⟩ ∧
      ((new false).handleLine .working ("vars" ++ "=" ++ "5")).2 = .ok ⟨.proceed, "5\n"⟩ :=
  ⟨rfl, by decide, rfl, rfl, by decide +kernel⟩

end Session

end DeskCalculator
