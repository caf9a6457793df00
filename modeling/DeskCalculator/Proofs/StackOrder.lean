import DeskCalculator.Proofs.SingleMoves
import Mathlib.Data.List.Chain
import Mathlib.Data.List.TakeWhile
import Mathlib.Data.Set.List

namespace DeskCalculator

namespace Operator

variable {op upper middle lower : Operator} {ops : List Operator}

def LiesOn (upper lower : Operator) : Prop :=
  lower.precedence < upper.precedence ∨ upper = .power ∧ lower = .power

theorem liesOn_iff : upper.LiesOn lower ↔ upper.yieldsTo lower = false := by
  cases upper <;> cases lower <;> simp [LiesOn, yieldsTo, associativity, precedence]

theorem LiesOn.trans (h : upper.LiesOn middle) (hlower : middle.LiesOn lower) :
    upper.LiesOn lower := by
  rcases h with h | ⟨rfl, rfl⟩
  · rcases hlower with hlower | ⟨rfl, rfl⟩
    · exact .inl (Nat.lt_trans hlower h)
    · exact .inl h
  · exact hlower

instance : Trans LiesOn LiesOn LiesOn := ⟨LiesOn.trans⟩

theorem yieldsTo_of_liesOn (h : upper.LiesOn lower) (hlower : op.yieldsTo lower = true) :
    op.yieldsTo upper = true := by
  cases hupper : op.yieldsTo upper with
  | true => rfl
  | false =>
      have hlies := (liesOn_iff.mpr hupper).trans h
      rw [liesOn_iff.mp hlies] at hlower
      exact hlower

/-- From the top down: any number of powers, then at most one product or quotient, then at
most one sum or difference. -/
def Layered (ops : List Operator) : Prop :=
  ∃ (powers : Nat) (product sum : Option Operator),
    (∀ op ∈ product, op = .multiply ∨ op = .divide) ∧ (∀ op ∈ sum, op = .add ∨ op = .subtract) ∧
      ops = List.replicate powers .power ++ product.toList ++ sum.toList

theorem not_liesOn_of_sum (hop : op = .add ∨ op = .subtract) (lower : Operator) : ¬ op.LiesOn lower := by
  rcases hop with rfl | rfl <;> cases lower <;> simp [LiesOn, precedence]

theorem sum_of_liesOn_product (hop : op = .multiply ∨ op = .divide) (h : op.LiesOn lower) :
    lower = .add ∨ lower = .subtract := by
  rcases hop with rfl | rfl <;> cases lower <;> simp_all [LiesOn, precedence]

theorem eq_nil_of_sum (hop : op = .add ∨ op = .subtract) (h : (op :: ops).Pairwise LiesOn) :
    ops = [] := by
  refine List.eq_nil_iff_forall_not_mem.mpr fun lower hmem => ?_
  exact not_liesOn_of_sum hop lower (List.rel_of_pairwise_cons h hmem)

theorem layered_of_sum (hop : op = .add ∨ op = .subtract) (h : (op :: ops).Pairwise LiesOn) :
    Layered (op :: ops) := by
  obtain rfl := eq_nil_of_sum hop h
  exact ⟨0, none, some op, by simp, by simpa using hop, rfl⟩

theorem layered_of_product (hop : op = .multiply ∨ op = .divide) (h : (op :: ops).Pairwise LiesOn) :
    Layered (op :: ops) := by
  cases ops with
  | nil => exact ⟨0, some op, none, by simpa using hop, by simp, rfl⟩
  | cons next rest =>
      have hsum := sum_of_liesOn_product hop (List.rel_of_pairwise_cons h List.mem_cons_self)
      obtain rfl := eq_nil_of_sum hsum h.of_cons
      exact ⟨0, some op, some next, by simpa using hop, by simpa using hsum, rfl⟩

theorem layered_of_pairwise (h : ops.Pairwise LiesOn) : Layered ops := by
  induction ops with
  | nil => exact ⟨0, none, none, by simp⟩
  | cons op rest ih =>
      cases op with
      | power =>
          obtain ⟨powers, product, sum, hproduct, hsum, rfl⟩ := ih h.of_cons
          exact ⟨powers + 1, product, sum, hproduct, hsum, by simp [List.replicate_succ]⟩
      | multiply => exact layered_of_product (.inl rfl) h
      | divide => exact layered_of_product (.inr rfl) h
      | add => exact layered_of_sum (.inl rfl) h
      | subtract => exact layered_of_sum (.inr rfl) h

end Operator

def Token.MayLieOn : Token → Token → Prop
  | .operator upper, .operator lower => upper.LiesOn lower
  | _, _ => True

namespace Postfix

open Token

structure Orderly (stack : List Token) : Prop where
  waits : ∀ token ∈ stack, token = .openParen ∨ ∃ op, token = .operator op
  climbs : stack.IsChain MayLieOn

variable {stack piece tokens : List Token} {a b moment next : Moment} {op waiting : Operator}

theorem Orderly.ofPiece (h : Orderly stack) (hpiece : piece <:+: stack) : Orderly piece :=
  ⟨fun token hmem => h.waits token (hpiece.subset hmem), List.IsChain.infix h.climbs hpiece⟩

theorem Orderly.tail {top : Token} (h : Orderly (top :: stack)) : Orderly stack :=
  h.ofPiece (List.suffix_cons top stack).isInfix

/-- The bottom of the stack and an opened parenthesis hold up any operator, and an operator
comes to lie on another one only if it did not make that one go out. -/
theorem orderly_of_moves (h : Moves a b) (ha : Orderly a.stack) : Orderly b.stack := by
  cases h with
  | operand | stray => exact ha
  | opening =>
      refine ⟨List.forall_mem_cons.mpr ⟨.inl rfl, ha.waits⟩, ha.climbs.cons ?_⟩
      exact fun _ _ => trivial
  | @entering _ _ _ op hhead =>
      refine ⟨List.forall_mem_cons.mpr ⟨.inr ⟨op, rfl⟩, ha.waits⟩, ha.climbs.cons ?_⟩
      intro top htop
      cases top with
      | operator waiting => exact Operator.liesOn_iff.mpr (hhead waiting htop)
      | number | identifier | symbol | openParen | closeParen => trivial
  | yielding | closing | closed | ending => exact ha.tail

theorem Reaches.orderly (h : Reaches tokens moment) : Orderly moment.stack := by
  induction h with
  | refl => exact ⟨by simp, .nil⟩
  | tail _ hmove ih => exact orderly_of_moves hmove ih

theorem Orderly.exists_operators (h : Orderly piece) (hparen : .openParen ∉ piece) :
    ∃ ops : List Operator, piece = ops.map Token.operator ∧ ops.Pairwise Operator.LiesOn := by
  have hall : piece ∈ Set.range (List.map Token.operator) := by
    rw [Set.range_list_map]
    intro token hmem
    rcases h.waits token hmem with rfl | ⟨op, rfl⟩
    · exact absurd hmem hparen
    · exact ⟨op, rfl⟩
  obtain ⟨ops, rfl⟩ := hall
  have hchain : ops.IsChain Operator.LiesOn := (List.isChain_map Token.operator).mp h.climbs
  exact ⟨ops, rfl, List.isChain_iff_pairwise.mp hchain⟩

theorem Orderly.pairwise (h : Orderly piece) (hparen : .openParen ∉ piece) : piece.Pairwise MayLieOn := by
  obtain ⟨ops, rfl, hops⟩ := h.exists_operators hparen
  exact List.pairwise_map.mpr hops

theorem yieldsTo_of_entering (h : Orderly moment.stack) (hmove : Moves moment next)
    (hrest : moment.rest = .operator op :: next.rest)
    (hwaiting : .operator waiting ∈ moment.stack.takeWhile isOperator) :
    op.yieldsTo waiting = false := by
  have hnext := orderly_of_moves hmove h
  cases hmove with
  | @entering stack _ _ _ _ =>
      cases hrest
      have hfront : stack.takeWhile isOperator <+: stack := List.takeWhile_prefix isOperator
      have hgroup : Orderly (.operator op :: stack.takeWhile isOperator) :=
        hnext.ofPiece ((List.prefix_cons_inj _).mpr hfront).isInfix
      have hparen : .openParen ∉ Token.operator op :: stack.takeWhile isOperator := by
        intro hmem
        rcases List.mem_cons.mp hmem with hop | hmem
        · cases hop
        · cases List.mem_takeWhile_imp hmem
      exact Operator.liesOn_iff.mp (List.rel_of_pairwise_cons (hgroup.pairwise hparen) hwaiting)
  | operand htoken =>
      cases hrest
      cases htoken
  | yielding | ending => simp at hrest
  | opening | closing | closed | stray => cases hrest

end Postfix

section Loops

variable {α : Type} {p q : α → Bool} {items : List α}

theorem takeWhile_eq_filter (h : items.Pairwise fun x y => p y = true → p x = true) :
    items.takeWhile p = items.filter p := by
  induction items with
  | nil => rfl
  | cons x rest ih =>
      obtain ⟨hx, hrest⟩ := List.pairwise_cons.mp h
      cases hp : p x with
      | true => rw [List.takeWhile_cons_of_pos hp, List.filter_cons_of_pos hp, ih hrest]
      | false =>
          have hnone : rest.filter p = [] := List.filter_eq_nil_iff.mpr fun y hy hpy => by
            rw [hx y hy hpy] at hp
            cases hp
          simp [hp, hnone]

theorem dropWhile_eq_filter (h : items.Pairwise fun x y => p y = true → p x = true) :
    items.dropWhile p = items.filter (!p ·) := by
  induction items with
  | nil => rfl
  | cons x rest ih =>
      obtain ⟨hx, hrest⟩ := List.pairwise_cons.mp h
      cases hp : p x with
      | true => simp [hp, ih hrest]
      | false =>
          have hall : rest.filter (!p ·) = rest := List.filter_eq_self.mpr fun y hy => by
            cases hpy : p y with
            | true => rw [hx y hy hpy] at hp; cases hp
            | false => rfl
          simp [hp, hall]

theorem takeWhile_of_imp (h : ∀ x, p x = true → q x = true) (items : List α) :
    items.takeWhile p = (items.takeWhile q).takeWhile p := by
  rw [List.takeWhile_takeWhile]
  congr
  funext x
  simpa using h x

theorem dropWhile_of_imp (h : ∀ x, p x = true → q x = true) (items : List α) :
    items.dropWhile p = (items.takeWhile q).dropWhile p ++ items.dropWhile q := by
  induction items with
  | nil => rfl
  | cons x rest ih =>
      cases hp : p x with
      | true => simp [hp, h x hp, ih]
      | false => cases hq : q x <;> simp [hp, hq]

end Loops

namespace Postfix

open Token

theorem isOperator_of_precedes {op : Operator} (top : Pending) (h : top.precedes op = true) :
    top.isOperator = true := by
  cases top with
  | operator waiting => rfl
  | group => cases h

theorem pairwise_precedes {group : List Pending} (h : Orderly (group.map Pending.token))
    (hops : ∀ top ∈ group, top.isOperator = true) (op : Operator) :
    group.Pairwise fun upper lower => Pending.precedes op lower = true → Pending.precedes op upper = true := by
  have hparen : .openParen ∉ group.map Pending.token := by
    intro hmem
    obtain ⟨top, htop, htoken⟩ := List.mem_map.mp hmem
    rw [Pending.eq_group_of_token htoken] at htop
    cases hops _ htop
  refine (List.pairwise_map.mp (h.pairwise hparen)).imp_of_mem ?_
  intro upper lower hupper hlower hlies hlow
  cases upper with
  | group => cases hops _ hupper
  | operator above =>
      cases lower with
      | group => cases hops _ hlower
      | operator waiting => exact Operator.yieldsTo_of_liesOn hlies hlow

/-- On a stack in order, the loop that stops at the first operator which may stay finds all that
have to go out, and no others. -/
theorem loop_eq_filter {stack : List Pending} (h : Orderly (stack.map Pending.token)) (op : Operator) :
    released stack (.operator op) =
        operators ((stack.takeWhile Pending.isOperator).filter (Pending.precedes op)) ∧
      pushed stack (.operator op) =
        .operator op :: ((stack.takeWhile Pending.isOperator).filter (!Pending.precedes op ·) ++
          stack.dropWhile Pending.isOperator) := by
  have hfront : stack.takeWhile Pending.isOperator <+: stack := List.takeWhile_prefix _
  have hgroup : Orderly ((stack.takeWhile Pending.isOperator).map Pending.token) :=
    h.ofPiece (hfront.isInfix.map _)
  have hpairwise := pairwise_precedes hgroup (fun _ hmem => List.mem_takeWhile_imp hmem) op
  constructor
  · rw [released, takeWhile_of_imp isOperator_of_precedes, takeWhile_eq_filter hpairwise]
  · rw [pushed, dropWhile_of_imp isOperator_of_precedes, dropWhile_eq_filter hpairwise]

/-- The conversion is one run of single moves. All that waits at any moment of it are operators
and opened parentheses, and an operator lies right on another one only if it binds tighter or
both are powers. So a piece of the stack without parentheses has at most three layers, and an
operator comes in when none is left in its group that has to go out before it. -/
theorem ofInfix_stack_climbs (tokens : List Token) :
    ((∀ result, ofInfix tokens = .ok result ↔ Reaches tokens ⟨[], result, []⟩) ∧
      (∀ fault, ofInfix tokens = .error fault ↔
        ∃ character stack out rest, fault = .unsupportedOperator character ∧
          Reaches tokens ⟨stack, out, .symbol character :: rest⟩) ∧
      (∀ moment next other, Moves moment next → Moves moment other → next = other) ∧
      ∀ front back, tokens = front ++ back → (∀ character, .symbol character ∉ front) →
        Reaches tokens ⟨(front.foldl pushed []).map Pending.token, emitted [] front, back⟩) ∧
    (∀ moment, Reaches tokens moment →
      (∀ token ∈ moment.stack, token = .openParen ∨ ∃ op, token = .operator op) ∧
      (∀ upper lower, [.operator upper, .operator lower] <:+: moment.stack →
        lower.precedence < upper.precedence ∨ upper = .power ∧ lower = .power) ∧
      (∀ piece, piece <:+: moment.stack → .openParen ∉ piece →
        ∃ ops, piece = ops.map Token.operator ∧ Operator.Layered ops) ∧
      ∀ op next, Moves moment next → moment.rest = .operator op :: next.rest →
        ∀ waiting, .operator waiting ∈ moment.stack.takeWhile isOperator →
          op.yieldsTo waiting = false) ∧
    ∀ front op back, tokens = front ++ .operator op :: back → (∀ character, .symbol character ∉ front) →
      ∀ stack, stack = front.foldl pushed [] →
        released stack (.operator op) =
            operators ((stack.takeWhile Pending.isOperator).filter (Pending.precedes op)) ∧
          pushed stack (.operator op) =
            .operator op :: ((stack.takeWhile Pending.isOperator).filter (!Pending.precedes op ·) ++
              stack.dropWhile Pending.isOperator) := by
  refine ⟨⟨fun _ => ofInfix_eq_ok_iff_reaches, fun _ => ofInfix_eq_error_iff_reaches,
    fun _ _ _ => moves_unique, ?_⟩, ?_, ?_⟩
  · rintro front back rfl hfront
    exact reaches_front hfront back
  · intro moment h
    have horderly := h.orderly
    refine ⟨horderly.waits, fun upper lower hpair => ?_, fun piece hpiece hparen => ?_, ?_⟩
    · exact (List.isChain_cons_cons.mp (horderly.ofPiece hpair).climbs).1
    · obtain ⟨ops, hops, hpairwise⟩ := (horderly.ofPiece hpiece).exists_operators hparen
      exact ⟨ops, hops, Operator.layered_of_pairwise hpairwise⟩
    · intro op next hmove hrest waiting hwaiting
      exact yieldsTo_of_entering horderly hmove hrest hwaiting
  · rintro front op back rfl hfront stack rfl
    exact loop_eq_filter (reaches_front hfront (.operator op :: back)).orderly op

theorem ofInfix_stack_climbs_stray :
    Reaches [.number "9", .operator .subtract, .closeParen, .number "2", .operator .add, .openParen,
        .number "3", .operator .multiply, .number "4", .operator .power, .number "5", .operator .power,
        .number "6", .operator .divide, .number "1"]
      ⟨[.operator .power, .operator .power, .operator .multiply, .openParen, .operator .add],
        [.number "9", .operator .subtract, .number "2", .number "3", .number "4", .number "5",
          .number "6"], [.operator .divide, .number "1"]⟩ ∧
    Operator.multiply.precedence < Operator.power.precedence ∧
    (∃ ops, [.operator .power, .operator .power, .operator .multiply] = ops.map Token.operator ∧
      Operator.Layered ops) ∧
    Operator.power.yieldsTo .multiply = false ∧
    released [.operator .power, .operator .power, .operator .multiply, .group, .operator .add]
        (.operator .divide) = [.operator .power, .operator .power, .operator .multiply] ∧
    pushed [.operator .power, .operator .power, .operator .multiply, .group, .operator .add]
        (.operator .divide) = [.operator .divide, .group, .operator .add] := by
  obtain ⟨⟨-, -, -, hreaches⟩, hmoments, hloop⟩ := ofInfix_stack_climbs [.number "9",
    .operator .subtract, .closeParen, .number "2", .operator .add, .openParen, .number "3",
    .operator .multiply, .number "4", .operator .power, .number "5", .operator .power, .number "6",
    .operator .divide, .number "1"]
  have hdivide := hreaches [.number "9", .operator .subtract, .closeParen, .number "2", .operator .add,
    .openParen, .number "3", .operator .multiply, .number "4", .operator .power, .number "5",
    .operator .power, .number "6"] [.operator .divide, .number "1"] rfl (by simp)
  have hpower := hreaches [.number "9", .operator .subtract, .closeParen, .number "2", .operator .add,
    .openParen, .number "3", .operator .multiply, .number "4", .operator .power, .number "5"]
    [.operator .power, .number "6", .operator .divide, .number "1"] rfl (by simp)
  obtain ⟨-, hpair, hpiece, -⟩ := hmoments _ hdivide
  obtain ⟨-, -, -, hentering⟩ := hmoments _ hpower
  refine ⟨hdivide, ?_, ?_, ?_, ?_⟩
  · have hbinds := hpair .power .multiply ⟨[.operator .power], [.openParen, .operator .add], rfl⟩
    exact hbinds.resolve_right (by simp)
  · exact hpiece _ ⟨[], [.openParen, .operator .add], rfl⟩ (by simp)
  · refine hentering .power _ (.entering ?_) rfl .multiply (by decide)
    rintro _ ⟨⟩
    rfl
  · exact hloop [.number "9", .operator .subtract, .closeParen, .number "2", .operator .add,
      .openParen, .number "3", .operator .multiply, .number "4", .operator .power, .number "5",
      .operator .power, .number "6"] .divide [.number "1"] rfl (by simp) _ rfl

end Postfix

end DeskCalculator
