import DeskCalculator.Statement
import DeskCalculator.Proofs.NamesRead
import DeskCalculator.Proofs.Rendering
import Mathlib.Data.List.Basic

namespace DeskCalculator

namespace Store

def Extends (large small : Store) : Prop :=
  ∀ name value, small.get? name = some value → large.get? name = some value

theorem extends_insert {store : Store} {name : String} (h : store.get? name = none) (value : Float) :
    (store.insert name value).Extends store := by
  intro other found hfound
  rw [get?_insert, if_neg]
  · exact hfound
  · rintro rfl
    rw [h] at hfound
    cases hfound

end Store

namespace Fault

/-- The second result is the first one, unless that is the fault that a name is unknown. -/
inductive Stays {α : Type} : Except Fault α → Except Fault α → Prop
  | same (result : Except Fault α) : Stays result result
  | unknown (name : String) (result : Except Fault α) : Stays (.error (.unknownVariable name)) result

variable {α β : Type} {x y : Except Fault α}

theorem Stays.bind (h : Stays x y) {f g : α → Except Fault β} (hnext : ∀ a, Stays (f a) (g a)) :
    Stays (x >>= f) (y >>= g) := by
  cases h with
  | same =>
      cases x with
      | error fault => exact .same _
      | ok a => exact hnext a
  | unknown name => exact .unknown name _

theorem Stays.map (h : Stays x y) (f : α → β) : Stays (x.map f) (y.map f) := by
  cases h with
  | same => exact .same _
  | unknown name => exact .unknown name _

theorem Stays.ok {a : α} (h : Stays x y) (hx : x = .ok a) : y = .ok a := by
  cases h with
  | same => exact hx
  | unknown => cases hx

theorem Stays.error {fault : Fault} (h : Stays x y) (hx : x = .error fault)
    (hfault : ∀ name, fault ≠ .unknownVariable name) : y = .error fault := by
  cases h with
  | same => exact hx
  | unknown name => exact absurd (Except.error.inj hx).symm (hfault name)

end Fault

namespace Postfix

open Fault

variable {small large : Store}

theorem namedValue_stays (h : large.Extends small) (name : String) :
    Stays (namedValue small name) (namedValue large name) := by
  cases hget : small.get? name with
  | some value =>
      simp only [namedValue, hget, h name value hget]
      exact .same _
  | none =>
      simp only [namedValue, hget]
      exact .unknown name _

theorem numeralValue_stays (h : large.Extends small) (text : String) :
    Stays (numeralValue small text) (numeralValue large text) := by
  cases hread : Numeral.read? text with
  | some value =>
      simp only [numeralValue, hread]
      exact .same _
  | none =>
      simp only [numeralValue, hread]
      exact namedValue_stays h text

theorem step_stays (h : large.Extends small) (values : List Float) (token : Token) :
    Stays (step small values token) (step large values token) := by
  cases token with
  | number text => exact (numeralValue_stays h text).map _
  | identifier name => exact (namedValue_stays h name).map _
  | operator | symbol | openParen | closeParen => exact .same _

theorem foldlM_step_stays (h : large.Extends small) (tokens : List Token) (values : List Float) :
    Stays (tokens.foldlM (step small) values) (tokens.foldlM (step large) values) := by
  induction tokens generalizing values with
  | nil => exact .same _
  | cons token rest ih =>
      rw [List.foldlM_cons, List.foldlM_cons]
      exact (step_stays h values token).bind ih

theorem evaluate_stays (h : large.Extends small) (tokens : List Token) :
    Stays (evaluate small tokens) (evaluate large tokens) :=
  (foldlM_step_stays h tokens []).bind fun _ => .same _

end Postfix

namespace Expression

open Token

/-- Some token of the expression is looked up under this name: an identifier, or a numeral that has
no value of its own. -/
def Reads (text name : String) : Prop :=
  ∃ tokens, tokenize (Blank.trim text) = .ok tokens ∧ ∃ token ∈ tokens, token.readName? = some name

variable {text name : String}

theorem evaluate_eq_of_agree {a b : Store} (h : ∀ name, Reads text name → a.get? name = b.get? name) :
    evaluate a text = evaluate b text := by
  apply evaluate_congr
  intro tokens htokens token hmem name hread
  exact h name ⟨tokens, htokens, token, hmem, hread⟩

theorem not_reads_of_numeral (hread : (Numeral.read? name).isSome = true)
    (hname : Statement.isName name = false) : ¬ Reads text name := by
  rintro ⟨tokens, htokens, token, hmem, hlooked⟩
  cases token with
  | number numeral =>
      simp only [readName?, Option.ite_none_right_eq_some, Option.some_inj] at hlooked
      obtain ⟨hnone, rfl⟩ := hlooked
      rw [Option.isNone_iff_eq_none.mp hnone] at hread
      cases hread
  | identifier other =>
      obtain rfl := Option.some.inj hlooked
      have hlexical := isLexical_of_lexes ((tokenize_eq_ok_iff _ _).mp htokens) _ hmem
      have hletters : Statement.isName other = true := hlexical
      rw [hletters] at hname
      cases hname
  | operator | symbol | openParen | closeParen => cases hlooked

theorem evaluate_stays {small large : Store} (h : large.Extends small) (text : String) :
    Fault.Stays (evaluate small text) (evaluate large text) := by
  by_cases hblank : Blank.trim text = ""
  · have hempty := String.isEmpty_iff.mpr hblank
    rw [evaluate, evaluate, if_pos hempty, if_pos hempty]
    exact .same _
  · rw [evaluate_of_not_blank hblank, evaluate_of_not_blank hblank]
    exact (Fault.Stays.same _).bind (Postfix.evaluate_stays h)

/-- Of the variables only those matter that are looked up, so one that is called like a number never
does. New variables can give a value to an expression that lacked one of them, and change nothing else. -/
theorem evaluate_of_names_read (text : String) :
    (∀ a b : Store, (∀ name, Reads text name → a.get? name = b.get? name) →
      evaluate a text = evaluate b text) ∧
    (∀ (store : Store) (name : String) (value : Float), (Numeral.read? name).isSome = true →
      Statement.isName name = false → evaluate (store.insert name value) text = evaluate store text) ∧
    ∀ small large : Store, large.Extends small →
      (∀ value, evaluate small text = .ok value → evaluate large text = .ok value) ∧
      ∀ fault, (∀ name, fault ≠ .unknownVariable name) → evaluate small text = .error fault →
        evaluate large text = .error fault := by
  refine ⟨fun _ _ => evaluate_eq_of_agree, fun store name value hread hname => ?_,
    fun small large h => ⟨fun _ => (evaluate_stays h text).ok, fun _ hfault hsmall => ?_⟩⟩
  · apply evaluate_eq_of_agree
    rintro other hother
    have hne : other ≠ name := by
      rintro rfl
      exact not_reads_of_numeral hread hname hother
    rw [Store.get?_insert, if_neg hne]
  · exact (evaluate_stays h text).error hsmall hfault

theorem evaluate_of_names_read_numerals :
    ((∀ name, Reads "x - 1,5" name →
        (Store.ofList [("1,5", 3), ("x", 2)]).get? name =
          (Store.ofList [("1,5", 3), ("5", 7), ("x", 2), ("y", 1)]).get? name) ∧
      evaluate (Store.ofList [("1,5", 3), ("x", 2)]) "x - 1,5" =
        evaluate (Store.ofList [("1,5", 3), ("5", 7), ("x", 2), ("y", 1)]) "x - 1,5") ∧
    evaluate (Store.empty.insert "5" 7) "5 + 5" = evaluate .empty "5 + 5" ∧
    evaluate ((Store.empty.insert "x" 6).insert "y" 0) "x / 2" = .ok 3 ∧
    evaluate ((Store.empty.insert "x" 6).insert "y" 0) "x / 0 + y" = .error .divisionByZero := by
  refine ⟨?_, ?_, ?_⟩
  · have hagree : ∀ name, Reads "x - 1,5" name →
        (Store.ofList [("1,5", 3), ("x", 2)]).get? name =
          (Store.ofList [("1,5", 3), ("5", 7), ("x", 2), ("y", 1)]).get? name := by
      rintro name ⟨tokens, htokens, token, hmem, hread⟩
      have hlexed : tokenize (Blank.trim "x - 1,5") =
        .ok [.identifier "x", .operator .subtract, .number "1,5"] := rfl
      obtain rfl := Except.ok.inj (hlexed.symm.trans htokens)
      simp only [List.mem_cons, List.not_mem_nil, or_false] at hmem
      rcases hmem with rfl | rfl | rfl
      · obtain rfl := Option.some.inj hread
        rfl
      · cases hread
      · obtain rfl := Option.some.inj hread
        rfl
    exact ⟨hagree, (evaluate_of_names_read "x - 1,5").1 _ _ hagree⟩
  · exact (evaluate_of_names_read "5 + 5").2.1 .empty "5" 7 (by decide) (by decide)
  · have hextends : ((Store.empty.insert "x" 6).insert "y" 0).Extends (Store.empty.insert "x" 6) :=
      Store.extends_insert rfl 0
    exact ⟨((evaluate_of_names_read "x / 2").2.2 _ _ hextends).1 3 (by decide +kernel),
      ((evaluate_of_names_read "x / 0 + y").2.2 _ _ hextends).2 _ nofun (by decide +kernel)⟩

end Expression

end DeskCalculator
