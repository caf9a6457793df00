import DeskCalculator.CommandLine.Run
import DeskCalculator.Proofs.LineKinds
import DeskCalculator.Proofs.Rereading

namespace DeskCalculator

namespace Expression

variable {text : String} {fault : Fault}

theorem toPostfix_trim (text : String) : toPostfix (Blank.trim text) = toPostfix text := by
  rw [toPostfix, toPostfix, Blank.trim_trim]

theorem evaluate_trim (store : Store) (text : String) :
    evaluate store (Blank.trim text) = evaluate store text := by
  rw [evaluate, evaluate, Blank.trim_trim, toPostfix_trim]

/-- A blank text can be put into postfix order, so one that cannot has no value either. -/
theorem evaluate_of_toPostfix_fault (h : toPostfix text = .error fault) (store : Store) :
    evaluate store text = .error fault := by
  refine evaluate_of_toPostfix_error (fun hblank => ?_) h store
  rw [toPostfix, trimmed_eq_nil_iff.mp hblank] at h
  cases h

end Expression

namespace Session

variable {text : String}

theorem postfixText_trim (session : Session) (text : String) :
    session.postfixText (Blank.trim text) = session.postfixText text := by
  rw [postfixText, postfixText, Expression.toPostfix_trim]

theorem handleLine_expression (hsign : '=' ∉ text.toList)
    (hword : Command.firstWord (Blank.trim text) ∉ Command.words) (session : Session) :
    session.handleLine .working text =
      ({ session with
          store := session.store.keep Statement.defaultTarget (Expression.evaluate session.store text) },
        .ok ⟨.proceed,
          session.postfixText text ++ resultText (Expression.evaluate session.store text)⟩) := by
  rw [handleLine_of_onLine (Statement.onLine_of_no_sign hword hsign), handleStatement_working,
    Expression.evaluate_trim, postfixText_trim]

end Session

namespace CommandLine

open Token

variable {text : String} {value : Float} {fault : Fault}

/-- Each line of a message on a line of its own, behind four spaces. -/
def indented (message : String) : String :=
  String.join ((message.toList.splitOn '\n').map fun line => "    " ++ String.ofList line ++ "\n")

theorem toList_indented (message : String) :
    (indented message).toList = "    ".toList ++
      (message.toList.flatMap fun c => if c = '\n' then "\n    ".toList else [c]) ++ ['\n'] := by
  rw [indented, String.toList_join, List.splitOn]
  induction message.toList with
  | nil => rfl
  | cons c rest ih =>
      rw [List.splitOnP_cons_eq_if_modifyHead]
      by_cases hc : c = '\n'
      · simp [hc, ih]
      · obtain ⟨first, later, hsplit⟩ :=
          List.exists_cons_of_ne_nil (List.splitOnP_ne_nil (· == '\n') rest)
        rw [hsplit] at ih ⊢
        simpa [hc] using ih

theorem Outcome.failure_eq (context message : String) :
    failure context message =
      ⟨1, "", "Error: " ++ context ++ "\n\nCaused by:\n" ++ indented message⟩ := by
  have hcause : indent message ++ "\n" = indented message := by
    apply String.toList_injective
    rw [toList_indented]
    simp [indent]
  rw [failure, ← hcause, ← String.append_assoc]

theorem valueOnce_of_value (h : Expression.evaluate .empty text = .ok value) :
    valueOnce text = ⟨0, Session.resultText (.ok value), ""⟩ := by
  rw [valueOnce, h]
  rfl

theorem valueOnce_of_fault (h : Expression.evaluate .empty text = .error fault) :
    valueOnce text = .failure ("could not evaluate expression '" ++ text ++ "'") fault.message := by
  rw [valueOnce, h]

def Unshowable (showPostfix : Bool) (text : String) : Prop :=
  showPostfix = true ∧ ∃ fault, Expression.toPostfix text = .error fault

theorem evaluateOnce_of_not_unshowable {showPostfix : Bool} (h : ¬ Unshowable showPostfix text) :
    evaluateOnce showPostfix text =
      (valueOnce text).after ((Session.new showPostfix).postfixText text) := by
  cases showPostfix with
  | false => simp [evaluateOnce, Session.postfixText, Session.new, Outcome.after]
  | true =>
      cases hpostfix : Expression.toPostfix text with
      | ok tokens => simp [evaluateOnce, Session.postfixText, Session.new, hpostfix]
      | error found => exact absurd ⟨rfl, found, hpostfix⟩ h

theorem evaluateOnce_of_unshowable {showPostfix : Bool} (h : Unshowable showPostfix text)
    (hfault : Expression.evaluate .empty text = .error fault) :
    evaluateOnce showPostfix text =
        .failure ("could not parse expression '" ++ text ++ "'") fault.message ∧
      (Session.new showPostfix).postfixText text = "" := by
  obtain ⟨rfl, found, hpostfix⟩ := h
  obtain rfl : found = fault :=
    Except.error.inj ((Expression.evaluate_of_toPostfix_fault hpostfix .empty).symm.trans hfault)
  simp [evaluateOnce, Session.postfixText, Session.new, hpostfix]

theorem evaluateOnce_of_value (h : Expression.evaluate .empty text = .ok value) (showPostfix : Bool) :
    evaluateOnce showPostfix text =
      ⟨0, (Session.new showPostfix).postfixText text ++ Session.resultText (.ok value), ""⟩ := by
  have hshown : ¬ Unshowable showPostfix text := by
    rintro ⟨-, found, hpostfix⟩
    cases h.symm.trans (Expression.evaluate_of_toPostfix_fault hpostfix .empty)
  rw [evaluateOnce_of_not_unshowable hshown, valueOnce_of_value h]
  rfl

theorem evaluateOnce_of_fault (h : Expression.evaluate .empty text = .error fault) (showPostfix : Bool) :
    ∃ context,
      evaluateOnce showPostfix text =
        ⟨1, (Session.new showPostfix).postfixText text,
          "Error: " ++ context ++ "\n\nCaused by:\n" ++ indented fault.message⟩ ∧
      (Unshowable showPostfix text → context = "could not parse expression '" ++ text ++ "'") ∧
      (¬ Unshowable showPostfix text → context = "could not evaluate expression '" ++ text ++ "'") := by
  by_cases hunshowable : Unshowable showPostfix text
  · obtain ⟨houtcome, hsilent⟩ := evaluateOnce_of_unshowable hunshowable h
    refine ⟨_, ?_, fun _ => rfl, fun hnot => absurd hunshowable hnot⟩
    rw [houtcome, hsilent, Outcome.failure_eq]
  · refine ⟨_, ?_, fun hnot => absurd hnot hunshowable, fun _ => rfl⟩
    rw [evaluateOnce_of_not_unshowable hunshowable, valueOnce_of_fault h, Outcome.failure_eq]
    simp [Outcome.after]

theorem status_evaluateOnce_eq_zero_iff (showPostfix : Bool) (text : String) :
    (evaluateOnce showPostfix text).status = 0 ↔
      ∃ value, Expression.evaluate .empty text = .ok value := by
  cases h : Expression.evaluate .empty text with
  | ok value =>
      rw [evaluateOnce_of_value h]
      exact iff_of_true rfl ⟨value, rfl⟩
  | error fault =>
      obtain ⟨context, houtcome, -⟩ := evaluateOnce_of_fault h showPostfix
      rw [houtcome]
      exact iff_of_false Nat.one_ne_zero nofun

/-- One expression is answered as the first line of a session would be. Where the session tells a
mistake after what it has shown, the program stops with it as the cause. Whether postfix forms are
shown makes no difference to the value or to the cause, only to what is said to have been tried. -/
theorem evaluateOnce_agrees (hsign : '=' ∉ text.toList)
    (hword : Command.firstWord (Blank.trim text) ∉ Command.words) :
    (∀ showPostfix, (evaluateOnce showPostfix text).status = 0 ↔
      ∃ value, Expression.evaluate .empty text = .ok value) ∧
    (∀ value, Expression.evaluate .empty text = .ok value → ∀ showPostfix, ∃ next output,
      (Session.new showPostfix).handleLine .working text = (next, .ok ⟨.proceed, output⟩) ∧
      evaluateOnce showPostfix text = ⟨0, output, ""⟩) ∧
    ∀ fault, Expression.evaluate .empty text = .error fault → ∀ showPostfix, ∃ next shown context,
      (Session.new showPostfix).handleLine .working text =
        (next, .ok ⟨.proceed, shown ++ ("Error: " ++ fault.message ++ "\n")⟩) ∧
      evaluateOnce showPostfix text =
        ⟨1, shown, "Error: " ++ context ++ "\n\nCaused by:\n" ++ indented fault.message⟩ ∧
      (Unshowable showPostfix text → context = "could not parse expression '" ++ text ++ "'") ∧
      (¬ Unshowable showPostfix text → context = "could not evaluate expression '" ++ text ++ "'") := by
  have hline (showPostfix : Bool) := Session.handleLine_expression hsign hword (.new showPostfix)
  refine ⟨fun showPostfix => status_evaluateOnce_eq_zero_iff showPostfix text,
    fun value hvalue showPostfix => ?_, fun fault hfault showPostfix => ?_⟩
  · have hstore : Expression.evaluate (Session.new showPostfix).store text = .ok value := hvalue
    have hanswer := hline showPostfix
    rw [hstore] at hanswer
    exact ⟨_, _, hanswer, evaluateOnce_of_value hvalue showPostfix⟩
  · have hstore : Expression.evaluate (Session.new showPostfix).store text = .error fault := hfault
    have hanswer := hline showPostfix
    rw [hstore] at hanswer
    obtain ⟨context, hcontext⟩ := evaluateOnce_of_fault hfault showPostfix
    exact ⟨_, _, context, hanswer, hcontext⟩

theorem eq_of_reply {session next : Session} {flow : Flow} {shown other told : String}
    (hline : session.handleLine .working text = (next, .ok ⟨flow, shown ++ told⟩))
    (hreply : (session.handleLine .working text).2 = .ok ⟨flow, other ++ told⟩) : shown = other := by
  rw [hline] at hreply
  simpa using hreply

theorem evaluateOnce_agrees_zero_divisor :
    (∃ next,
      (Session.new true).handleLine .working " (2) / 0\n" =
        (next, .ok ⟨.proceed, "2 0 /\nError: Division by zero\n"⟩) ∧
      evaluateOnce true " (2) / 0\n" =
        ⟨1, "2 0 /\n",
          "Error: could not evaluate expression ' (2) / 0\n'\n\nCaused by:\n    Division by zero\n"⟩) ∧
    (∃ next,
      (Session.new true).handleLine .working "2\n% x" =
        (next, .ok ⟨.proceed, "Error: Unknown character '\n' at index 1\n"⟩) ∧
      evaluateOnce true "2\n% x" =
        ⟨1, "", "Error: could not parse expression '2\n% x'\n\nCaused by:\n" ++
          "    Unknown character '\n    ' at index 1\n"⟩) ∧
    ∃ next,
      (Session.new true).handleLine .working " \t" = (next, .ok ⟨.proceed, "\n0\n"⟩) ∧
      evaluateOnce true " \t" = ⟨0, "\n0\n", ""⟩ := by
  refine ⟨?_, ?_, ?_⟩
  · have hsign : '=' ∉ " (2) / 0\n".toList := by decide
    have hquotient := (evaluateOnce_agrees hsign (by decide)).2.2
    obtain ⟨next, shown, context, hline, houtcome, -, hevaluate⟩ :=
      hquotient .divisionByZero (by decide +kernel) true
    obtain rfl := hevaluate (by rintro ⟨-, found, hfound⟩; cases hfound)
    obtain rfl : shown = "2 0 /\n" := eq_of_reply hline (by decide +kernel)
    exact ⟨next, hline, houtcome⟩
  · have hsign : '=' ∉ "2\n% x".toList := by decide
    have hsymbol := (evaluateOnce_agrees hsign (by decide)).2.2
    obtain ⟨next, shown, context, hline, houtcome, hparse, -⟩ :=
      hsymbol (.unknownCharacter '\n' 1) rfl true
    obtain rfl := hparse ⟨rfl, _, rfl⟩
    obtain rfl : shown = "" := eq_of_reply hline (by decide +kernel)
    exact ⟨next, hline, houtcome⟩
  · have hsign : '=' ∉ " \t".toList := by decide
    have hblank := (evaluateOnce_agrees hsign (by decide)).2.1
    obtain ⟨next, output, hline, houtcome⟩ := hblank 0 rfl true
    have hreply : ((Session.new true).handleLine .working " \t").2 = .ok ⟨.proceed, "\n0\n"⟩ := by
      decide +kernel
    rw [hline] at hreply
    obtain rfl : output = "\n0\n" := by simpa using hreply
    exact ⟨next, hline, houtcome⟩

end CommandLine

end DeskCalculator
