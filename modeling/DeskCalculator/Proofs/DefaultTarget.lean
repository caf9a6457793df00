import DeskCalculator.Proofs.SignSpacing

namespace DeskCalculator

namespace Statement

def Blanks (text : String) : Prop := ∀ c ∈ text.toList, Blank.isBlank c = true

theorem Blanks.sign_not_mem {text : String} (h : Blanks text) : '=' ∉ text.toList := by
  intro hmem
  cases h '=' hmem

theorem ofLine_of_first_sign {target : String} (h : '=' ∉ target.toList) (expression : String) :
    ofLine (target ++ "=" ++ expression) =
      if isName (Blank.trim target) then .ok ⟨Blank.trim target, Blank.trim expression⟩
      else .error ⟨Blank.trim target⟩ := by
  have hline : (target ++ "=" ++ expression).toList = target.toList ++ '=' :: expression.toList := by simp
  rw [ofLine_of_sign hline h, String.ofList_toList, String.ofList_toList]

theorem ofLine_surrounded {front back : String} (hfront : Blanks front) (hback : Blanks back)
    (line : String) : ofLine (front ++ line ++ back) = ofLine line := by
  rw [← ofLine_trim, Blank.trim_surrounded hfront hback, ofLine_trim]

theorem ofLine_surrounded_sides {front behind before back : String} (hfront : Blanks front)
    (hbehind : Blanks behind) (hbefore : Blanks before) (hback : Blanks back) {target : String}
    (h : '=' ∉ target.toList) (expression : String) :
    ofLine (front ++ target ++ behind ++ "=" ++ (before ++ expression ++ back)) =
      ofLine (target ++ "=" ++ expression) := by
  have hsign : '=' ∉ (front ++ target ++ behind).toList := by
    simp [hfront.sign_not_mem, h, hbehind.sign_not_mem]
  rw [ofLine_of_first_sign hsign, ofLine_of_first_sign h, Blank.trim_surrounded hfront hbehind,
    Blank.trim_surrounded hbefore hback]

theorem ofLine_accepts_iff (line : String) :
    (∃ statement, ofLine line = .ok statement) ↔
      '=' ∉ line.toList ∨ ∃ target expression, line.toList = target ++ '=' :: expression ∧
        '=' ∉ target ∧ isName (Blank.trim (String.ofList target)) = true := by
  constructor
  · rintro ⟨statement, h⟩
    rcases ofLine_eq_ok_iff.mp h with ⟨hsign, -⟩ | ⟨target, expression, hline, htarget, hname, -⟩
    · exact .inl hsign
    · exact .inr ⟨target, expression, hline, htarget, hname⟩
  · rintro (hsign | ⟨target, expression, hline, htarget, hname⟩)
    · exact ⟨_, ofLine_of_no_sign hsign⟩
    · exact ⟨_, ofLine_eq_ok_iff.mpr (.inr ⟨target, expression, hline, htarget, hname, rfl⟩)⟩

end Statement

namespace Session

open Statement

theorem onLine_default {text : String} : OnLine ("ans = " ++ text) ⟨defaultTarget, Blank.trim text⟩ := by
  have hassignment : "ans = " ++ text = assignment defaultTarget 1 1 text := by
    simp [assignment, defaultTarget]
  rw [hassignment]
  exact onLine_assignment rfl (by decide) 1 text

/-- To name the default target is to name none. A line with equals signs is read if a name stands left
of the first one, and white space around the line or around either part of it makes no difference. -/
theorem handleLine_default_target :
    (∀ (writer : Writer) (session : Session) (text : String), '=' ∉ text.toList →
      Command.ofLine? (Blank.trim text) = none →
      session.handleLine writer ("ans = " ++ text) = session.handleLine writer text) ∧
    (∀ line, (∃ statement, Statement.ofLine line = .ok statement) ↔
      '=' ∉ line.toList ∨ ∃ target expression, line.toList = target ++ '=' :: expression ∧
        '=' ∉ target ∧ Blank.trim (String.ofList target) ≠ "" ∧
        ∀ c ∈ (Blank.trim (String.ofList target)).toList, c.isAlpha = true) ∧
    ∀ front behind before back, Blanks front → Blanks behind → Blanks before → Blanks back →
      (∀ line, Statement.ofLine (front ++ line ++ back) = Statement.ofLine line) ∧
      ∀ target expression : String, '=' ∉ target.toList →
        Statement.ofLine (front ++ target ++ behind ++ "=" ++ (before ++ expression ++ back)) =
          Statement.ofLine (target ++ "=" ++ expression) := by
  refine ⟨fun writer session text hsign hcommand => ?_, fun line => ?_,
    fun front behind before back hfront hbehind hbefore hback => ⟨ofLine_surrounded hfront hback, ?_⟩⟩
  · have hword := Command.ofLine?_eq_none_iff.mp hcommand
    rw [handleLine_of_onLine onLine_default, handleLine_of_onLine (onLine_of_no_sign hword hsign)]
  · simp only [ofLine_accepts_iff, isName_iff]
  · exact fun target expression h => ofLine_surrounded_sides hfront hbehind hbefore hback h expression

theorem handleLine_default_target_blanks :
    (new true).handleLine .working ("ans = " ++ " 1 / 0\t") = (new true).handleLine .working " 1 / 0\t" ∧
      (¬ ∃ statement, Statement.ofLine "ans + 1 = 2" = .ok statement) ∧
      Statement.ofLine "\n\u3000x\u00a0=\tx = 1\u2028" = Statement.ofLine "x=x = 1" := by
  refine ⟨handleLine_default_target.1 .working (new true) " 1 / 0\t" (by decide) rfl, ?_, ?_⟩
  · rintro ⟨statement, h⟩
    cases h
  · have hblanks (text : String) (h : text.toList.all Blank.isBlank = true) : Blanks text :=
      List.all_eq_true.mp h
    exact (handleLine_default_target.2.2 "\n\u3000" "\u00a0" "\t" "\u2028" (hblanks _ rfl)
      (hblanks _ rfl) (hblanks _ rfl) (hblanks _ rfl)).2 "x" "x = 1" (by decide)

end Session

end DeskCalculator
