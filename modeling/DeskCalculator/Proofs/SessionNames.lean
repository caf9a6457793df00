import DeskCalculator.Proofs.Bindings
import DeskCalculator.Proofs.Rendering
import DeskCalculator.Proofs.SessionSteps

namespace DeskCalculator

namespace Token

open Character

/-- A numeral has digits or separators, and behind a sign too, so it can be no name. -/
theorem isName_of_number {text : String} (h : (number text).isLexical = true) :
    Statement.isName text = false := by
  apply Bool.eq_false_iff.mpr
  intro hname
  obtain ⟨-, hletters⟩ := Statement.isName_iff.mp hname
  obtain ⟨digits, hrun, hchars⟩ := isLexical_number_iff.mp h
  obtain ⟨c, rest, rfl⟩ := List.exists_cons_of_ne_nil hrun.nonempty
  have hnumeric : isNumericPart c = true := hrun.all c (by simp)
  have hc : c ∈ text.toList := by rcases hchars with hchars | hchars <;> simp [hchars]
  rw [not_isNumericPart_of_isLetter (hletters c hc)] at hnumeric
  cases hnumeric

end Token

namespace Postfix

variable {store : Store} {tokens : List Token} {token : Token} {text : String}

theorem exists_step_of_mem {values after : List Float}
    (h : tokens.foldlM (step store) values = .ok after) (hmem : token ∈ tokens) :
    ∃ before next, step store before token = .ok next := by
  induction tokens generalizing values with
  | nil => cases hmem
  | cons first rest ih =>
      rw [List.foldlM_cons] at h
      obtain ⟨next, hstep, hrest⟩ := Fault.bind_eq_ok_iff.mp h
      rcases List.mem_cons.mp hmem with rfl | hmem
      · exact ⟨values, next, hstep⟩
      · exact ih hrest hmem

theorem numeralValue_of_absent (hread : Numeral.read? text = none) (hget : store.get? text = none) :
    numeralValue store text = .error (.unknownVariable text) := by
  simp only [numeralValue, hread, namedValue, hget]

theorem exists_fault_of_number (hmem : .number text ∈ tokens)
    (hread : Numeral.read? text = none) (hget : store.get? text = none) :
    ∃ fault, evaluate store tokens = .error fault := by
  cases hvalue : evaluate store tokens with
  | error fault => exact ⟨fault, rfl⟩
  | ok value =>
      obtain ⟨values, hrun, -⟩ := Fault.bind_eq_ok_iff.mp hvalue
      obtain ⟨before, next, hstep⟩ := exists_step_of_mem hrun hmem
      simp [step, numeralValue_of_absent hread hget, Except.map] at hstep

end Postfix

namespace Expression

open Token

/-- No token of a text is passed over, so one without a value leaves the text without one. -/
theorem exists_fault_of_number {store : Store} {text numeral : String} {tokens : List Token}
    (h : tokenize (Blank.trim text) = .ok tokens) (hmem : .number numeral ∈ tokens)
    (hread : Numeral.read? numeral = none) (hget : store.get? numeral = none) :
    ∃ fault, evaluate store text = .error fault := by
  rw [evaluate_eq_bind h (List.ne_nil_of_mem hmem)]
  cases hpostfix : toPostfix text with
  | error fault => exact ⟨fault, rfl⟩
  | ok result =>
      obtain ⟨-, horder⟩ := (toPostfix_eq_ok_iff h).mp hpostfix
      have hcarried : .number numeral ∈ result :=
        (Postfix.ofInfix_perm horder).mem_iff.mpr (List.mem_filter.mpr ⟨hmem, rfl⟩)
      exact Postfix.exists_fault_of_number hcarried hread hget

end Expression

namespace Session

open Token

variable {session : Session} {input : Input} {name : String}

theorem mem_names_step :
    name ∈ (session.step input).store.names ↔
      name ∈ session.store.names ∨ ∃ value, session.Assigns input name value := by
  rcases step_cases session input with ⟨other, found, hassigns, hstep⟩ | ⟨hnone, hstep⟩
  · rw [hstep, Store.mem_names_insert, or_comm]
    apply or_congr_right
    constructor
    · rintro rfl
      exact ⟨found, hassigns⟩
    · rintro ⟨value, h⟩
      exact (h.unique hassigns).1
  · rw [hstep]
    exact ⟨.inl, fun h => h.resolve_right fun ⟨value, hassigns⟩ => hnone name value hassigns⟩

theorem after_induction {p : Session → Prop} (hstep : ∀ session input, p session → p (session.step input))
    (h : p session) (inputs : List Input) : p (session.after inputs) := by
  induction inputs generalizing session with
  | nil => exact h
  | cons input rest ih =>
      rw [after_cons]
      exact ih (hstep session input h)

theorem mem_names_after (h : name ∈ session.store.names) (inputs : List Input) :
    name ∈ (session.after inputs).store.names :=
  after_induction (p := fun session => name ∈ session.store.names)
    (fun _ _ hname => mem_names_step.mpr (.inl hname)) h inputs

theorem isName_of_mem_names (showPostfix : Bool) (inputs : List Input) :
    ∀ name ∈ ((new showPostfix).after inputs).store.names, Statement.isName name = true := by
  apply after_induction (p := fun session => ∀ name ∈ session.store.names, Statement.isName name = true)
  · intro session input hnames name hmem
    rcases mem_names_step.mp hmem with hold | ⟨value, hassigns⟩
    · exact hnames name hold
    · obtain ⟨expression, hparsed, -, -⟩ := hassigns.evaluated
      exact Statement.isName_of_ofLine hparsed
  · nofun

theorem get?_number (showPostfix : Bool) (inputs : List Input) {text numeral : String}
    {tokens : List Token} (h : tokenize text = .ok tokens) (hmem : .number numeral ∈ tokens) :
    ((new showPostfix).after inputs).store.get? numeral = none := by
  have hlexical := isLexical_of_lexes ((tokenize_eq_ok_iff _ _).mp h) _ hmem
  apply Option.eq_none_iff_forall_ne_some.mpr
  intro value hget
  have hname := isName_of_mem_names showPostfix inputs numeral (Store.mem_names_iff.mpr ⟨value, hget⟩)
  rw [isName_of_number hlexical] at hname
  cases hname

/-- Whatever lines a session is given, its variables are named by letters alone, and none is
ever lost. So no text of a numeral is the name of one, and a statement with a numeral that
has no value of its own changes nothing. -/
theorem names_of_run (showPostfix : Bool) (inputs : List Input) :
    (∀ name ∈ ((new showPostfix).after inputs).store.names,
      name ≠ "" ∧ ∀ c ∈ name.toList, c.isAlpha = true) ∧
    (∀ later, ∀ name ∈ ((new showPostfix).after inputs).store.names,
      name ∈ ((new showPostfix).after (inputs ++ later)).store.names) ∧
    (∀ text tokens numeral, tokenize text = .ok tokens → .number numeral ∈ tokens →
      Numeral.read? numeral = none →
      Postfix.numeralValue ((new showPostfix).after inputs).store numeral =
        .error (.unknownVariable numeral)) ∧
    ∀ writer line statement tokens numeral, Statement.ofLine (Blank.trim line) = .ok statement →
      tokenize statement.expression = .ok tokens → .number numeral ∈ tokens →
      Numeral.read? numeral = none →
      (((new showPostfix).after inputs).handleLine writer line).1 = (new showPostfix).after inputs := by
  refine ⟨fun name hname => ?_, fun later name hname => ?_, fun text tokens numeral h hmem hread => ?_,
    fun writer line statement tokens numeral hparsed h hmem hread => ?_⟩
  · exact Statement.isName_iff.mp (isName_of_mem_names showPostfix inputs name hname)
  · have hlater := mem_names_after hname later
    rwa [after, after, ← List.foldl_append] at hlater
  · exact Postfix.numeralValue_of_absent hread (get?_number showPostfix inputs h hmem)
  · have hget := get?_number showPostfix inputs h hmem
    obtain ⟨fault, hfault⟩ := Expression.exists_fault_of_number (tokenize_trim h) hmem hread hget
    have hstep : ((new showPostfix).after inputs).step ⟨writer, line⟩ = (new showPostfix).after inputs :=
      step_of_fault hparsed hfault
    exact hstep

theorem names_of_run_separators :
    "x" ∈ ((new true).after ([⟨.working, "x = 2"⟩, ⟨.broken, "y = x"⟩] ++ [⟨.working, "1"⟩])).store.names ∧
      Postfix.numeralValue ((new true).after [⟨.working, "x = 2"⟩, ⟨.broken, "y = x"⟩]).store "1,5" =
        .error (.unknownVariable "1,5") ∧
      (((new true).after [⟨.working, "x = 2"⟩, ⟨.broken, "y = x"⟩]).handleLine .working "x = x + .").1 =
        (new true).after [⟨.working, "x = 2"⟩, ⟨.broken, "y = x"⟩] := by
  obtain ⟨-, hkept, hlookup, hunchanged⟩ :=
    names_of_run true [⟨.working, "x = 2"⟩, ⟨.broken, "y = x"⟩]
  refine ⟨hkept [⟨.working, "1"⟩] "x" (by decide +kernel), ?_, ?_⟩
  · exact hlookup "1,5" [.number "1,5"] "1,5" rfl (by simp) (by decide)
  · exact hunchanged .working "x = x + ." ⟨"x", "x + ."⟩ [.identifier "x", .operator .add, .number "."] "."
      rfl rfl (by simp) (by decide)

end Session

end DeskCalculator
