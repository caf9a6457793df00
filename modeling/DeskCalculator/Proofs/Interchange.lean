import DeskCalculator.Proofs.Bindings
import DeskCalculator.Proofs.LineKinds
import DeskCalculator.Proofs.NamesRead
import DeskCalculator.Proofs.SessionNames

namespace DeskCalculator

theorem Store.keep_comm {Failure : Type} (store : Store) {first second : String} (h : first ≠ second)
    (a b : Except Failure Float) :
    (store.keep first a).keep second b = (store.keep second b).keep first a := by
  cases a with
  | error => rfl
  | ok x =>
      cases b with
      | error => rfl
      | ok y => exact store.insert_comm h x y

namespace Expression

open Token

variable {text name : String}

instance (text name : String) : Decidable (Mentions text name) :=
  match h : tokenize (Blank.trim text) with
  | .ok tokens => decidable_of_iff (.identifier name ∈ tokens) (by simp [Mentions, h])
  | .error _ => .isFalse (by simp [Mentions, h])

/-- No numeral is a name, so what is assigned to a name is read by its identifier alone. -/
theorem readName?_ne {tokens : List Token} (hname : Statement.isName name = true)
    (h : ¬ Mentions text name) (htokens : tokenize (Blank.trim text) = .ok tokens) :
    ∀ token ∈ tokens, token.readName? ≠ some name := by
  intro token hmem hread
  cases token with
  | number numeral =>
      simp only [readName?, Option.ite_none_right_eq_some, Option.some_inj] at hread
      have hlexical := isLexical_of_lexes ((tokenize_eq_ok_iff _ _).mp htokens) _ hmem
      rw [← hread.2, isName_of_number hlexical] at hname
      cases hname
  | identifier other =>
      rw [Option.some_inj.mp hread] at hmem
      exact h ⟨tokens, htokens, hmem⟩
  | operator | symbol | openParen | closeParen => cases hread

theorem evaluate_keep {Failure : Type} (store : Store) (result : Except Failure Float)
    (hname : Statement.isName name = true) (h : ¬ Mentions text name) :
    evaluate (store.keep name result) text = evaluate store text := by
  cases result with
  | error => rfl
  | ok value =>
      apply evaluate_congr
      intro tokens htokens token hmem read hread
      have hne : read ≠ name := by
        rintro rfl
        exact readName?_ne hname h htokens token hmem hread
      rw [Store.keep, Store.get?_insert, if_neg hne]

end Expression

namespace Session

def Interchange (session : Session) (first second : String) : Prop :=
  ∃ afterFirst afterSecond final firstReply secondReply,
    session.handleLine .working first = (afterFirst, .ok firstReply) ∧
    afterFirst.handleLine .working second = (final, .ok secondReply) ∧
    session.handleLine .working second = (afterSecond, .ok secondReply) ∧
    afterSecond.handleLine .working first = (final, .ok firstReply)

variable {session : Session} {first second : String} {s t : Statement}

theorem Interchange.symm (h : session.Interchange first second) : session.Interchange second first := by
  obtain ⟨afterFirst, afterSecond, final, firstReply, secondReply, hfirst, hthen, hsecond, hback⟩ := h
  exact ⟨afterSecond, afterFirst, final, secondReply, firstReply, hsecond, hback, hfirst, hthen⟩

theorem interchange_of_arguments (session : Session) (second : String)
    (hword : Command.firstWord (Blank.trim first) ∈ Command.words)
    (hgiven : Command.arguments (Blank.trim first) ≠ []) : session.Interchange first second := by
  obtain ⟨reply, hreply, -⟩ := handleLine_working session second
  have hfirst := handleLine_of_arguments hword hgiven .working
  exact ⟨session, _, _, _, reply, hfirst session, hreply, hreply, hfirst _⟩

theorem handleLine_keep (hs : Statement.OnLine first s) {name : String}
    (hname : Statement.isName name = true) (hfree : ¬ Expression.Mentions s.expression name)
    (session : Session) (result : Except Fault Float) :
    { session with store := session.store.keep name result }.handleLine .working first =
      ({ session with
          store := (session.store.keep name result).keep s.target
            (Expression.evaluate session.store s.expression) },
        .ok ⟨.proceed, session.postfixText s.expression ++
          resultText (Expression.evaluate session.store s.expression)⟩) := by
  rw [handleLine_of_onLine hs, handleStatement_working, Expression.evaluate_keep _ _ hname hfree]
  rfl

theorem interchange_of_onLine (session : Session) (hs : Statement.OnLine first s)
    (ht : Statement.OnLine second t) (hne : s.target ≠ t.target)
    (hst : ¬ Expression.Mentions s.expression t.target)
    (hts : ¬ Expression.Mentions t.expression s.target) : session.Interchange first second := by
  have hsecond := handleLine_keep ht (Statement.isName_of_ofLine hs.parsed) hts session
    (Expression.evaluate session.store s.expression)
  have hfirst := handleLine_keep hs (Statement.isName_of_ofLine ht.parsed) hst session
    (Expression.evaluate session.store t.expression)
  rw [Store.keep_comm _ hne.symm] at hfirst
  exact ⟨_, _, _, _, _, handleLine_of_onLine hs .working session, hsecond,
    handleLine_of_onLine ht .working session, hfirst⟩

/-- Two assignments to different names, neither of which reads the name of the other, can be made
in either order. Each may read its own name, and neither has to succeed. -/
theorem interchange_assignments (session : Session) {first second : String} {s t : Statement}
    (hfirst : '=' ∈ first.toList) (hsecond : '=' ∈ second.toList)
    (hs : Statement.ofLine first = .ok s) (ht : Statement.ofLine second = .ok t)
    (hne : s.target ≠ t.target) (hst : ¬ Expression.Mentions s.expression t.target)
    (hts : ¬ Expression.Mentions t.expression s.target) : session.Interchange first second := by
  by_cases hword : Command.firstWord (Blank.trim first) ∈ Command.words
  · exact interchange_of_arguments session second hword
      (Command.arguments_ne_nil_of_sign hword ((Blank.mem_trim_iff rfl).mpr hfirst))
  · by_cases hword' : Command.firstWord (Blank.trim second) ∈ Command.words
    · exact (interchange_of_arguments session first hword'
        (Command.arguments_ne_nil_of_sign hword' ((Blank.mem_trim_iff rfl).mpr hsecond))).symm
    · rw [← Statement.ofLine_trim] at hs ht
      exact interchange_of_onLine session ⟨hword, hs⟩ ⟨hword', ht⟩ hne hst hts

theorem interchange_assignments_own_targets :
    ((new true).after [⟨.working, "x = 3"⟩]).Interchange " x = x * 2\n" "y=(1,5)/z" ∧
      ((new true).after [⟨.working, "x = 3"⟩]).Interchange "vars = x" "y = 2 / 0" := by
  constructor
  · exact interchange_assignments _ (s := ⟨"x", "x * 2"⟩) (t := ⟨"y", "(1,5)/z"⟩)
      (by decide) (by decide) rfl rfl (by decide) (by decide) (by decide)
  · exact interchange_assignments _ (s := ⟨"vars", "x"⟩) (t := ⟨"y", "2 / 0"⟩)
      (by decide) (by decide) rfl rfl (by decide) (by decide) (by decide)

end Session

end DeskCalculator
