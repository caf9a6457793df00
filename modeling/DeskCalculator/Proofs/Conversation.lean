import DeskCalculator.CommandLine.Run
import DeskCalculator.Proofs.LineEnds
import DeskCalculator.Proofs.SessionSteps

namespace DeskCalculator.CommandLine

/-- The input is cut behind each newline, and its last piece may have none. -/
inductive SplitsInto : List UInt8 → List (List UInt8) → Prop
  | nil : SplitsInto [] []
  | unended {content : List UInt8} (hne : content ≠ []) (hnone : newline ∉ content) :
      SplitsInto content [content]
  | ended {content rest : List UInt8} {later : List (List UInt8)} (hnone : newline ∉ content)
      (hrest : SplitsInto rest later) :
      SplitsInto (content ++ newline :: rest) ((content ++ [newline]) :: later)

def text? (line : List UInt8) : Option String := String.fromUTF8? line.toByteArray

def Leaves (text : String) : Prop := Blank.trim text = "exit" ∨ Blank.trim text = "quit"

inductive Ending
  | input
  | command
  | noText

def Ending.outcome (written : String) : Ending → Outcome
  | .input => ⟨0, written ++ "\n> ", ""⟩
  | .command => ⟨0, written, ""⟩
  | .noText =>
    ⟨1, written ++ "\n> ", "Error: failed to read from standard input\n\nCaused by:\n" ++
      "    stream did not contain valid UTF-8\n"⟩

/-- The texts of the lines that are obeyed, and why there are no more. -/
inductive Heard : List (List UInt8) → List String → Ending → Prop
  | input : Heard [] [] .input
  | command {line : List UInt8} {text : String} (later : List (List UInt8))
      (hread : text? line = some text) (hleaves : Leaves text) :
      Heard (line :: later) [text] .command
  | noText {line : List UInt8} (later : List (List UInt8)) (hread : text? line = none) :
      Heard (line :: later) [] .noText
  | next {line : List UInt8} {later : List (List UInt8)} {text : String} {texts : List String}
      {ending : Ending} (hread : text? line = some text) (hstays : ¬ Leaves text)
      (hlater : Heard later texts ending) : Heard (line :: later) (text :: texts) ending

/-- What is written while the session is given these lines one after the other: a prompt for each
of them, and what it answers. -/
inductive Transcript : Session → List String → String → Prop
  | nil (session : Session) : Transcript session [] ""
  | cons {session next : Session} {text shown : String} {texts : List String} {reply : Reply}
      (hline : session.handleLine .working text = (next, .ok reply))
      (hlater : Transcript next texts shown) :
      Transcript session (text :: texts) ("\n> " ++ reply.output ++ shown)

variable {content input line : List UInt8} {pieces : List (List UInt8)} {text shown : String}
  {texts : List String} {ending : Ending}

theorem lines_of_not_mem (hne : content ≠ []) (hnone : newline ∉ content) :
    lines content = [content] := by
  induction content with
  | nil => exact absurd rfl hne
  | cons byte content ih =>
      obtain ⟨hbyte, hcontent⟩ := not_or.mp (mt List.mem_cons.mpr hnone)
      rw [lines, if_neg (Ne.symm hbyte)]
      by_cases hempty : content = []
      · rw [hempty, lines]
      · rw [ih hempty hcontent]

theorem lines_append_newline (hnone : newline ∉ content) (rest : List UInt8) :
    lines (content ++ newline :: rest) = (content ++ [newline]) :: lines rest := by
  induction content with
  | nil => rw [List.nil_append, lines, if_pos rfl, List.nil_append]
  | cons byte content ih =>
      obtain ⟨hbyte, hcontent⟩ := not_or.mp (mt List.mem_cons.mpr hnone)
      rw [List.cons_append, lines, if_neg (Ne.symm hbyte), ih hcontent, List.cons_append]

theorem splitsInto_lines (input : List UInt8) : SplitsInto input (lines input) := by
  induction input with
  | nil => exact .nil
  | cons byte rest ih =>
      rw [lines]
      by_cases hbyte : byte = newline
      · rw [if_pos hbyte, hbyte]
        exact SplitsInto.ended List.not_mem_nil ih
      · have hfront {content : List UInt8} (hnone : newline ∉ content) : newline ∉ byte :: content :=
          mt List.mem_cons.mp (not_or.mpr ⟨Ne.symm hbyte, hnone⟩)
        rw [if_neg hbyte]
        generalize lines rest = pieces at ih ⊢
        cases ih with
        | nil => exact .unended (List.cons_ne_nil byte []) (hfront List.not_mem_nil)
        | unended hne hnone => exact .unended (List.cons_ne_nil byte _) (hfront hnone)
        | ended hnone hrest => exact .ended (hfront hnone) hrest

theorem splitsInto_iff : SplitsInto input pieces ↔ pieces = lines input := by
  constructor
  · intro h
    induction h with
    | nil => rfl
    | unended hne hnone => rw [lines_of_not_mem hne hnone]
    | ended hnone _ ih => rw [lines_append_newline hnone, ih]
  · rintro rfl
    exact splitsInto_lines input

theorem exists_heard (pieces : List (List UInt8)) : ∃ texts ending, Heard pieces texts ending := by
  induction pieces with
  | nil => exact ⟨[], .input, .input⟩
  | cons line later ih =>
      cases hread : text? line with
      | none => exact ⟨[], .noText, .noText later hread⟩
      | some text =>
          by_cases hleaves : Leaves text
          · exact ⟨[text], .command, .command later hread hleaves⟩
          · obtain ⟨texts, ending, hlater⟩ := ih
            exact ⟨text :: texts, ending, .next hread hleaves hlater⟩

theorem exists_transcript (session : Session) (texts : List String) :
    ∃ shown, Transcript session texts shown := by
  induction texts generalizing session with
  | nil => exact ⟨"", .nil session⟩
  | cons text texts ih =>
      obtain ⟨reply, hline, -⟩ := session.handleLine_working text
      obtain ⟨shown, hlater⟩ := ih (session.step ⟨.working, text⟩)
      exact ⟨_, .cons hline hlater⟩

theorem flow_of_handleLine {session next : Session} {reply : Reply}
    (hline : session.handleLine .working text = (next, .ok reply)) :
    reply.flow = .exit ↔ Leaves text := by
  obtain ⟨found, hfound, hflow⟩ := session.handleLine_working text
  obtain ⟨-, hreply⟩ := Prod.mk.inj (hfound.symm.trans hline)
  rw [← Except.ok.inj hreply]
  exact hflow

theorem turn_of_noText (hread : text? line = none) (session : Session) :
    turn session line =
      .finish (.failure "failed to read from standard input"
        "stream did not contain valid UTF-8") := by
  rw [text?] at hread
  simp only [turn, hread]

theorem turn_of_leaves {session next : Session} {reply : Reply} (hread : text? line = some text)
    (hline : session.handleLine .working text = (next, .ok reply)) (hleaves : Leaves text) :
    turn session line = .finish (.success reply.output) := by
  have hflow := (flow_of_handleLine hline).mpr hleaves
  rw [text?] at hread
  simp only [turn, hread, hline, hflow]

theorem turn_of_stays {session next : Session} {reply : Reply} (hread : text? line = some text)
    (hline : session.handleLine .working text = (next, .ok reply)) (hstays : ¬ Leaves text) :
    turn session line = .next next reply.output := by
  have hflow := mt (flow_of_handleLine hline).mp hstays
  rw [text?] at hread
  cases hreply : reply.flow with
  | exit => exact absurd hreply hflow
  | proceed => simp only [turn, hread, hline, hreply]

theorem Ending.outcome_after (before written : String) (ending : Ending) :
    (ending.outcome written).after before = ending.outcome (before ++ written) := by
  cases ending <;> simp [outcome, Outcome.after, String.append_assoc]

theorem converse_of_heard (hheard : Heard pieces texts ending) {session : Session}
    (hshown : Transcript session texts shown) :
    converse session pieces = ending.outcome shown := by
  induction hheard generalizing session shown with
  | input =>
      cases hshown
      rfl
  | command later hread hleaves =>
      cases hshown with
      | cons hline hlater =>
          cases hlater
          simp [converse, turn_of_leaves hread hline hleaves, Ending.outcome, Outcome.after,
            Outcome.success, prompt]
  | noText later hread =>
      cases hshown
      simp only [converse, turn_of_noText hread]
      rfl
  | next hread hstays hlater ih =>
      cases hshown with
      | cons hline hrest =>
          simp only [converse, turn_of_stays hread hline hstays, ih hrest, Ending.outcome_after, prompt]

theorem interact_eq_iff (showPostfix : Bool) (input : List UInt8) (outcome : Outcome) :
    interact showPostfix input = outcome ↔
      ∃ texts ending shown, Heard (lines input) texts ending ∧
        Transcript (.new showPostfix) texts shown ∧
        outcome = ending.outcome (About.banner ++ "\n" ++ shown) := by
  have houtcome {texts : List String} {ending : Ending} {shown : String}
      (hheard : Heard (lines input) texts ending)
      (hshown : Transcript (.new showPostfix) texts shown) :
      interact showPostfix input = ending.outcome (About.banner ++ "\n" ++ shown) := by
    rw [interact, converse_of_heard hheard hshown, Ending.outcome_after]
  constructor
  · rintro rfl
    obtain ⟨texts, ending, hheard⟩ := exists_heard (lines input)
    obtain ⟨shown, hshown⟩ := exists_transcript (.new showPostfix) texts
    exact ⟨texts, ending, shown, hheard, hshown, houtcome hheard hshown⟩
  · rintro ⟨texts, ending, shown, hheard, hshown, rfl⟩
    exact houtcome hheard hshown

theorem run_of_no_expression {arguments : List String} {options : Options}
    (h : Options.ofArguments arguments = .ok options) (hnone : options.expression = none)
    (input : List UInt8) : run arguments input = interact (0 < options.showPostfix) input := by
  simp only [run, h, hnone]

/-- Without an expression the lines of the input are given to a session one by one, until one of
them leaves it, is no text, or there are no more. All that is written is the banner and, for each
line, the prompt and the answer. What ends a line has no part in this. -/
theorem run_conversation {arguments : List String} {options : Options}
    (h : Options.ofArguments arguments = .ok options) (hnone : options.expression = none)
    (input : List UInt8) :
    (∀ pieces, SplitsInto input pieces ↔ pieces = lines input) ∧
    (∀ outcome, run arguments input = outcome ↔
      ∃ texts ending shown, Heard (lines input) texts ending ∧
        Transcript (.new (0 < options.showPostfix)) texts shown ∧
        outcome = ending.outcome (About.banner ++ "\n" ++ shown)) ∧
    (∀ content line, Ended content line → ∀ session, turn session line = turn session content) ∧
    ∀ other, List.Forall₂ SameContent (lines input) (lines other) →
      run arguments input = run arguments other := by
  refine ⟨fun pieces => splitsInto_iff, fun outcome => ?_, fun content line => turn_ended,
    fun other hsame => ?_⟩
  · rw [run_of_no_expression h hnone]
    exact interact_eq_iff _ input outcome
  · rw [run_of_no_expression h hnone, run_of_no_expression h hnone, interact, interact,
      converse_sameContent hsame]

theorem run_conversation_left :
    run ["-p"] ("x1 = 3\nquit\r\n".toByteArray.data.toList ++ [255]) =
        ⟨0, About.banner ++ "\n" ++ "\n> Error: 'x1' is not a valid variable name\n\n> ", ""⟩ ∧
      run ["-p"] [255, newline] =
        ⟨1, About.banner ++ "\n\n> ", "Error: failed to read from standard input\n\nCaused by:\n" ++
          "    stream did not contain valid UTF-8\n"⟩ ∧
      run ["-p"] "1 + 1\n\n/".toByteArray.data.toList =
        run ["-p"] "1 + 1\r\n\r\n/\n".toByteArray.data.toList := by
  have hoptions : Options.ofArguments ["-p"] = .ok ⟨none, 1, 0, 0⟩ := rfl
  refine ⟨?_, ?_, ?_⟩
  · obtain ⟨-, houtcome, -, -⟩ :=
      run_conversation hoptions rfl ("x1 = 3\nquit\r\n".toByteArray.data.toList ++ [255])
    have hheard : Heard (lines ("x1 = 3\nquit\r\n".toByteArray.data.toList ++ [255]))
        ["x1 = 3\n", "quit\r\n"] .command :=
      .next rfl (by unfold Leaves; decide) (.command _ rfl (.inr (by decide)))
    refine (houtcome _).mpr ⟨_, _, _, hheard, .cons rfl (.cons rfl (.nil _)), ?_⟩
    simp only [Ending.outcome, String.append_assoc]
    rfl
  · obtain ⟨-, houtcome, -, -⟩ := run_conversation hoptions rfl [255, newline]
    refine (houtcome _).mpr ⟨_, _, _, .noText [] rfl, .nil _, ?_⟩
    rw [Ending.outcome, String.append_empty, String.append_assoc]
    rfl
  · obtain ⟨-, -, -, hends⟩ := run_conversation hoptions rfl "1 + 1\n\n/".toByteArray.data.toList
    have hfirst : SameContent [49, 32, 43, 32, 49, newline]
        [49, 32, 43, 32, 49, carriageReturn, newline] :=
      ⟨[49, 32, 43, 32, 49], .newline, .carriageReturn⟩
    have hsecond : SameContent [newline] [carriageReturn, newline] := ⟨[], .newline, .carriageReturn⟩
    have hlast : SameContent [47] [47, newline] := ⟨[47], .endOfInput, .newline⟩
    exact hends _ (.cons hfirst (.cons hsecond (.cons hlast .nil)))

end DeskCalculator.CommandLine
