import DeskCalculator.Proofs.OperandOrder
import DeskCalculator.Proofs.ShuntingYard
import Mathlib.Logic.Relation

namespace DeskCalculator.Postfix

open Token Relation

def Pending.token : Pending → Token
  | .operator op => .operator op
  | .group => .openParen

theorem Pending.eq_operator_of_token {waiting : Pending} {op : Operator}
    (h : waiting.token = .operator op) : waiting = .operator op := by
  cases waiting with
  | operator other =>
      cases h
      rfl
  | group => cases h

theorem Pending.eq_group_of_token {waiting : Pending} (h : waiting.token = .openParen) :
    waiting = .group := by
  cases waiting with
  | operator op => cases h
  | group => rfl

def Pending.goesFirst : Token → Pending → Bool
  | .operator op => Pending.precedes op
  | .closeParen => Pending.isOperator
  | .number _ | .identifier _ | .symbol _ | .openParen => fun _ => false

/-- What waits, the last to come on top, what has gone out, and what is still to be read. That
only operators and opened parentheses wait is not built in here. -/
structure Moment where
  stack : List Token
  out : List Token
  rest : List Token

/-- One token moves at a time. A token for which others have to go out first stays in front of
the input until they are gone. -/
inductive Moves : Moment → Moment → Prop
  | operand {stack out rest : List Token} {token : Token} (h : token.isOperand = true) :
      Moves ⟨stack, out, token :: rest⟩ ⟨stack, out ++ [token], rest⟩
  | opening {stack out rest : List Token} :
      Moves ⟨stack, out, .openParen :: rest⟩ ⟨.openParen :: stack, out, rest⟩
  | yielding {stack out rest : List Token} {op waiting : Operator} (h : op.yieldsTo waiting = true) :
      Moves ⟨.operator waiting :: stack, out, .operator op :: rest⟩
        ⟨stack, out ++ [.operator waiting], .operator op :: rest⟩
  | entering {stack out rest : List Token} {op : Operator}
      (h : ∀ waiting, .operator waiting ∈ stack.head? → op.yieldsTo waiting = false) :
      Moves ⟨stack, out, .operator op :: rest⟩ ⟨.operator op :: stack, out, rest⟩
  | closing {stack out rest : List Token} {top : Token} (h : top ≠ .openParen) :
      Moves ⟨top :: stack, out, .closeParen :: rest⟩ ⟨stack, out ++ [top], .closeParen :: rest⟩
  | closed {stack out rest : List Token} :
      Moves ⟨.openParen :: stack, out, .closeParen :: rest⟩ ⟨stack, out, rest⟩
  | stray {out rest : List Token} :
      Moves ⟨[], out, .closeParen :: rest⟩ ⟨[], out, rest⟩
  | ending {stack out : List Token} {top : Token} :
      Moves ⟨top :: stack, out, []⟩ ⟨stack, out ++ [top].filter isOperator, []⟩

def Reaches (tokens : List Token) : Moment → Prop := ReflTransGen Moves ⟨[], [], tokens⟩

variable {stack below : List Pending} {top : Pending} {token : Token} {tokens : List Token}
  {a b moment : Moment}

theorem operators_cons (top : Pending) (below : List Pending) :
    operators (top :: below) = [top.token].filter isOperator ++ operators below := by
  cases top <;> rfl

theorem exists_operator_of_goesFirst (h : top.goesFirst token = true) :
    ∃ waiting, top = .operator waiting := by
  cases top with
  | operator waiting => exact ⟨waiting, rfl⟩
  | group => cases token <;> cases h

theorem released_of_goesFirst (h : top.goesFirst token = true) (below : List Pending) :
    released (top :: below) token = top.token :: released below token := by
  obtain ⟨waiting, rfl⟩ := exists_operator_of_goesFirst h
  cases token with
  | operator op =>
      have hprecedes : Pending.precedes op (.operator waiting) = true := h
      rw [released, List.takeWhile_cons_of_pos hprecedes]
      rfl
  | closeParen => rfl
  | number | identifier | symbol | openParen => cases h

theorem pushed_of_goesFirst (h : top.goesFirst token = true) (below : List Pending) :
    pushed (top :: below) token = pushed below token := by
  obtain ⟨waiting, rfl⟩ := exists_operator_of_goesFirst h
  cases token with
  | operator op =>
      have hprecedes : Pending.precedes op (.operator waiting) = true := h
      rw [pushed, List.dropWhile_cons_of_pos hprecedes]
      rfl
  | closeParen => rfl
  | number | identifier | symbol | openParen => cases h

theorem order_of_goesFirst (h : top.goesFirst token = true) (below : List Pending) (rest : List Token) :
    order (top :: below) (token :: rest) = top.token :: order below (token :: rest) := by
  rw [order, order, released_of_goesFirst h, pushed_of_goesFirst h, List.cons_append]

theorem released_operator_of_head? {op : Operator}
    (h : ∀ top ∈ stack.head?, Pending.precedes op top = false) :
    released stack (.operator op) = [] ∧ pushed stack (.operator op) = .operator op :: stack := by
  cases stack with
  | nil => exact ⟨rfl, rfl⟩
  | cons top below => simp [released, pushed, h top rfl, operators]

theorem precedes_of_head? {op : Operator}
    (h : ∀ waiting, .operator waiting ∈ (stack.map Pending.token).head? → op.yieldsTo waiting = false) :
    ∀ top ∈ stack.head?, Pending.precedes op top = false := by
  intro top htop
  cases top with
  | operator waiting => exact h waiting (by rw [List.head?_map, Option.mem_def.mp htop]; rfl)
  | group => rfl

/-- What has gone out and what will go out, taken together, do not change as tokens move. -/
theorem moves_sound (h : Moves a b) (hstack : a.stack = stack.map Pending.token) :
    ∃ later : List Pending, b.stack = later.map Pending.token ∧
      b.out ++ order later b.rest = a.out ++ order stack a.rest := by
  cases h with
  | @operand _ _ _ token htoken =>
      refine ⟨stack, hstack, ?_⟩
      cases token with
      | number | identifier => simp [order, released, pushed]
      | operator | symbol | openParen | closeParen => cases htoken
  | opening => exact ⟨.group :: stack, congrArg (Token.openParen :: ·) hstack, rfl⟩
  | @yielding _ _ _ op waiting hyields =>
      obtain ⟨top, below, rfl, htop, hbelow⟩ := List.map_eq_cons_iff.mp hstack.symm
      obtain rfl := Pending.eq_operator_of_token htop
      have hfirst : (Pending.operator waiting).goesFirst (.operator op) = true := hyields
      refine ⟨below, hbelow.symm, ?_⟩
      rw [order_of_goesFirst hfirst]
      exact List.append_assoc _ _ _
  | @entering _ _ _ op hhead =>
      obtain rfl : _ = stack.map Pending.token := hstack
      obtain ⟨hout, hpushed⟩ := released_operator_of_head? (precedes_of_head? hhead)
      refine ⟨.operator op :: stack, rfl, ?_⟩
      rw [order, hout, hpushed, List.nil_append]
  | closing hne =>
      obtain ⟨top, below, rfl, rfl, hbelow⟩ := List.map_eq_cons_iff.mp hstack.symm
      refine ⟨below, hbelow.symm, ?_⟩
      cases top with
      | operator waiting =>
          have hfirst : (Pending.operator waiting).goesFirst .closeParen = true := rfl
          rw [order_of_goesFirst hfirst]
          exact List.append_assoc _ _ _
      | group => cases hne rfl
  | closed =>
      obtain ⟨top, below, rfl, htop, hbelow⟩ := List.map_eq_cons_iff.mp hstack.symm
      obtain rfl := Pending.eq_group_of_token htop
      exact ⟨below, hbelow.symm, rfl⟩
  | stray =>
      obtain rfl := List.map_eq_nil_iff.mp hstack.symm
      exact ⟨[], rfl, rfl⟩
  | ending =>
      obtain ⟨top, below, rfl, rfl, hbelow⟩ := List.map_eq_cons_iff.mp hstack.symm
      refine ⟨below, hbelow.symm, ?_⟩
      rw [order, order, operators_cons, List.append_assoc]

theorem moves_unique {next other : Moment} (h : Moves moment next) (hother : Moves moment other) :
    next = other := by
  cases h with
  | operand htoken =>
      cases hother with
      | operand => rfl
      | opening | yielding | entering | closing | closed | stray => cases htoken
  | opening =>
      cases hother with
      | operand htoken => cases htoken
      | opening => rfl
  | yielding hyields =>
      cases hother with
      | operand htoken => cases htoken
      | yielding => rfl
      | entering hstays =>
          rw [hstays _ rfl] at hyields
          cases hyields
  | entering hstays =>
      cases hother with
      | operand htoken => cases htoken
      | yielding hyields =>
          rw [hstays _ rfl] at hyields
          cases hyields
      | entering => rfl
  | closing hne =>
      cases hother with
      | operand htoken => cases htoken
      | closing => rfl
      | closed => cases hne rfl
  | closed =>
      cases hother with
      | operand htoken => cases htoken
      | closing hne => cases hne rfl
      | closed => rfl
  | stray =>
      cases hother with
      | operand htoken => cases htoken
      | stray => rfl
  | ending =>
      cases hother
      rfl

theorem moves_rest (h : Moves a b) :
    a.rest = b.rest ∨ ∃ token, (∀ character, token ≠ .symbol character) ∧ a.rest = token :: b.rest := by
  cases h with
  | @operand _ _ _ token htoken =>
      refine .inr ⟨token, ?_, rfl⟩
      rintro character rfl
      cases htoken
  | opening | entering | closed | stray => exact .inr ⟨_, by simp, rfl⟩
  | yielding | closing | ending => exact .inl rfl

theorem Reaches.sound (h : Reaches tokens moment) :
    ∃ stack : List Pending, moment.stack = stack.map Pending.token ∧
      moment.out ++ order stack moment.rest = order [] tokens := by
  induction h with
  | refl => exact ⟨[], rfl, rfl⟩
  | tail _ hmove ih =>
      obtain ⟨stack, hstack, hresult⟩ := ih
      obtain ⟨later, hlater, hout⟩ := moves_sound hmove hstack
      exact ⟨later, hlater, hout.trans hresult⟩

theorem Reaches.read (h : Reaches tokens moment) :
    ∃ front, tokens = front ++ moment.rest ∧ ∀ character, .symbol character ∉ front := by
  induction h with
  | refl => exact ⟨[], rfl, by simp⟩
  | tail _ hmove ih =>
      obtain ⟨front, hsplit, hfront⟩ := ih
      rcases moves_rest hmove with hrest | ⟨token, htoken, hrest⟩
      · exact ⟨front, hrest ▸ hsplit, hfront⟩
      · refine ⟨front ++ [token], by rw [hsplit, hrest]; simp, fun character hmem => ?_⟩
        rcases List.mem_append.mp hmem with hmem | hmem
        · exact hfront character hmem
        · exact htoken character (List.mem_singleton.mp hmem).symm

theorem moves_of_goesFirst (h : top.goesFirst token = true) (stack out rest : List Token) :
    Moves ⟨top.token :: stack, out, token :: rest⟩ ⟨stack, out ++ [top.token], token :: rest⟩ := by
  obtain ⟨waiting, rfl⟩ := exists_operator_of_goesFirst h
  cases token with
  | operator op => exact .yielding h
  | closeParen => exact .closing (by simp [Pending.token])
  | number | identifier | symbol | openParen => cases h

theorem moves_of_not_goesFirst (hsymbol : ∀ character, token ≠ .symbol character)
    (hhead : ∀ top ∈ stack.head?, top.goesFirst token = false) (out rest : List Token) :
    Moves ⟨stack.map Pending.token, out, token :: rest⟩
      ⟨(pushed stack token).map Pending.token, out ++ released stack token, rest⟩ := by
  cases token with
  | number | identifier => exact .operand rfl
  | symbol character => cases hsymbol character rfl
  | openParen => simpa [pushed, released, Pending.token] using Moves.opening
  | operator op =>
      obtain ⟨hout, hpushed⟩ := released_operator_of_head? hhead
      rw [hout, hpushed, List.append_nil]
      refine .entering fun waiting hwaiting => ?_
      obtain ⟨top, htop, htoken⟩ := Option.map_eq_some_iff.mp (List.head?_map ▸ hwaiting)
      obtain rfl := Pending.eq_operator_of_token htoken
      exact hhead _ htop
  | closeParen =>
      cases stack with
      | nil => simpa [pushed, released, operators] using Moves.stray
      | cons top below =>
          cases top with
          | operator waiting => cases hhead _ rfl
          | group => simpa [pushed, released, operators, Pending.token, Pending.isOperator] using Moves.closed

theorem moves_token (hsymbol : ∀ character, token ≠ .symbol character) (stack : List Pending)
    (out rest : List Token) :
    ReflTransGen Moves ⟨stack.map Pending.token, out, token :: rest⟩
      ⟨(pushed stack token).map Pending.token, out ++ released stack token, rest⟩ := by
  -- Each turn of the loop leaves a smaller stack and a longer output.
  induction stack generalizing out with
  | nil => exact .single (moves_of_not_goesFirst hsymbol (by simp) out rest)
  | cons top below ih =>
      by_cases h : top.goesFirst token = true
      · rw [released_of_goesFirst h, pushed_of_goesFirst h, List.append_cons]
        exact .head (moves_of_goesFirst h _ out rest) (ih _)
      · refine .single (moves_of_not_goesFirst hsymbol ?_ out rest)
        rintro _ ⟨⟩
        simpa using h

theorem moves_tokens (stack : List Pending) (out : List Token) {front : List Token}
    (hfront : ∀ character, .symbol character ∉ front) (back : List Token) :
    ReflTransGen Moves ⟨stack.map Pending.token, out, front ++ back⟩
      ⟨(front.foldl pushed stack).map Pending.token, out ++ emitted stack front, back⟩ := by
  induction front generalizing stack out with
  | nil => rw [emitted, List.append_nil]; exact .refl
  | cons token front ih =>
      have htoken : ∀ character, token ≠ .symbol character := by
        rintro character rfl
        exact hfront character List.mem_cons_self
      have hrest : ∀ character, .symbol character ∉ front :=
        fun character hmem => hfront character (List.mem_cons_of_mem _ hmem)
      rw [emitted, ← List.append_assoc]
      exact (moves_token htoken stack out (front ++ back)).trans (ih _ _ hrest)

theorem reaches_front {front : List Token} (hfront : ∀ character, .symbol character ∉ front)
    (back : List Token) :
    Reaches (front ++ back) ⟨(front.foldl pushed []).map Pending.token, emitted [] front, back⟩ :=
  moves_tokens [] [] hfront back

theorem moves_end (stack : List Pending) (out : List Token) :
    ReflTransGen Moves ⟨stack.map Pending.token, out, []⟩ ⟨[], out ++ operators stack, []⟩ := by
  induction stack generalizing out with
  | nil => rw [operators, List.filterMap_nil, List.append_nil]; exact .refl
  | cons top below ih =>
      rw [operators_cons, ← List.append_assoc]
      exact .head .ending (ih _)

theorem ofInfix_eq_ok_iff_reaches {result : List Token} :
    ofInfix tokens = .ok result ↔ Reaches tokens ⟨[], result, []⟩ := by
  rw [ofInfix_eq_ok_iff, forall_symbol?_eq_none_iff]
  constructor
  · rintro ⟨hsymbols, rfl⟩
    have hread := reaches_front hsymbols []
    rw [List.append_nil] at hread
    rw [order_eq]
    exact hread.trans (moves_end _ _)
  · intro h
    obtain ⟨front, hsplit, hfront⟩ := h.read
    obtain ⟨stack, hstack, hresult⟩ := h.sound
    obtain rfl := List.map_eq_nil_iff.mp hstack.symm
    rw [List.append_nil] at hsplit
    exact ⟨hsplit ▸ hfront, by simpa [order, operators] using hresult.symm⟩

theorem ofInfix_eq_error_iff_reaches {fault : Fault} :
    ofInfix tokens = .error fault ↔
      ∃ character stack out rest, fault = .unsupportedOperator character ∧
        Reaches tokens ⟨stack, out, .symbol character :: rest⟩ := by
  rw [ofInfix_eq_error_iff]
  constructor
  · rintro ⟨front, character, back, rfl, hfront, rfl⟩
    exact ⟨character, _, _, back, rfl, reaches_front hfront _⟩
  · rintro ⟨character, stack, out, rest, rfl, h⟩
    obtain ⟨front, rfl, hfront⟩ := h.read
    exact ⟨front, character, rest, rfl, hfront, rfl⟩

end DeskCalculator.Postfix
