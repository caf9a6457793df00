import DeskCalculator.Proofs.Tree

namespace DeskCalculator

namespace Binary64

theorem toBits_injective {x y : Float} (h : x.toBits = y.toBits) : x = y := by
  cases x with
  | ofModel x =>
      cases y with
      | ofModel y =>
          cases x
          cases y
          cases h
          rfl

theorem isZero_iff (x : Float) : isZero x = true ↔ Tree.IsZero x := by
  have hpos : (0 : Float).toBits = 0 := by decide
  have hneg : (-0 : Float).toBits = 0x8000000000000000 := by decide
  have hpattern : isZero x = true ↔ x.toBits.toNat % 0x8000000000000000 = 0 := by
    simp [isZero, pattern]
  rw [hpattern]
  constructor
  · intro h
    have hlt : x.toBits.toNat < 0x10000000000000000 := x.toBits.toNat_lt
    have hbits : x.toBits.toNat = 0 ∨ x.toBits.toNat = 0x8000000000000000 := by omega
    rcases hbits with hb | hb
    · exact .inl (toBits_injective (hpos ▸ UInt64.toNat.inj hb))
    · exact .inr (toBits_injective (hneg ▸ UInt64.toNat.inj hb))
  · rintro (rfl | rfl)
    · rw [hpos]; rfl
    · rw [hneg]; rfl

end Binary64

namespace Postfix

theorem combine_eq (op : Operator) (a b : Float) :
    combine op a b = Tree.nodeValue op a b := by
  cases op with
  | divide => simp [combine, Tree.nodeValue, Binary64.isZero_iff, Operator.apply]
  | add | subtract | multiply | power => simp [combine, Tree.nodeValue, Operator.apply]

theorem step_operand (store : Store) (values : List Float) (operand : Operand) :
    step store values operand.token = ((Tree.leaf operand).value store).map (· :: values) := by
  cases operand with
  | number text =>
      cases hr : Numeral.read? text <;> cases hg : store.get? text <;>
        simp [step, numeralValue, namedValue, Operand.token, Operand.text, Operand.value?, Tree.value,
          hr, hg]
  | identifier name =>
      cases hg : store.get? name <;>
        simp [step, namedValue, Operand.token, Operand.text, Operand.value?, Tree.value, hg]

theorem foldlM_postorder (store : Store) (tree : Tree) (values : List Float) :
    tree.postorder.foldlM (step store) values = (tree.value store).map (· :: values) := by
  induction tree generalizing values with
  | leaf operand =>
      rw [Tree.postorder, List.foldlM_cons, step_operand]
      cases (Tree.leaf operand).value store <;> rfl
  | node op left right ihl ihr =>
      simp only [Tree.postorder, List.foldlM_append, ihl, Tree.value]
      cases left.value store with
      | error fault => rfl
      | ok a =>
          simp only [Except.map, bind, Except.bind, ihr]
          cases right.value store with
          | error fault => rfl
          | ok b =>
              simp only [List.foldlM_cons, step, combine_eq]
              cases Tree.nodeValue op a b <;> rfl

theorem evaluate_postorder (store : Store) (tree : Tree) :
    evaluate store tree.postorder = tree.value store := by
  rw [evaluate, foldlM_postorder]
  cases tree.value store <;> rfl

def spelling : List Tree → List Token
  | [] => []
  | tree :: below => spelling below ++ tree.postorder

/-- While tokens are run, there is a tree for every value on the stack, and these trees
spell what has been read. -/
theorem step_spelling {store : Store} {values after : List Float} {token : Token}
    {forest : List Tree} (h : step store values token = .ok after)
    (hlen : forest.length = values.length) :
    ∃ grown : List Tree, grown.length = after.length ∧ spelling grown = spelling forest ++ [token] := by
  have hleaf (operand : Operand) (ho : operand.token = token) :
      ∃ grown : List Tree, grown.length = after.length ∧
        spelling grown = spelling forest ++ [token] := by
    subst ho
    rw [step_operand] at h
    cases hv : (Tree.leaf operand).value store with
    | error fault => simp [hv, Except.map] at h
    | ok value =>
        simp only [hv, Except.map, Except.ok.injEq] at h
        exact ⟨.leaf operand :: forest, by simp [← h, hlen], rfl⟩
  cases token with
  | number text => exact hleaf (.number text) rfl
  | identifier name => exact hleaf (.identifier name) rfl
  | operator op =>
      match values, forest, hlen with
      | b :: a :: below, right :: left :: rest, hlen =>
          simp only [step, Except.map] at h
          split at h
          · simp at h
          · simp only [Except.ok.injEq] at h
            simp only [List.length_cons, Nat.add_right_cancel_iff] at hlen
            exact ⟨.node op left right :: rest, by simp [← h, hlen], by simp [spelling, Tree.postorder]⟩
      | [], _, _ => simp [step] at h
      | [_], _, _ => simp [step] at h
  | symbol character => simp [step] at h
  | openParen => simp [step] at h
  | closeParen => simp [step] at h

theorem foldlM_spelling {store : Store} {tokens : List Token} {values after : List Float}
    (h : tokens.foldlM (step store) values = .ok after) (forest : List Tree)
    (hlen : forest.length = values.length) :
    ∃ grown : List Tree, grown.length = after.length ∧ spelling grown = spelling forest ++ tokens := by
  induction tokens generalizing values forest with
  | nil =>
      simp only [List.foldlM_nil, pure, Except.pure, Except.ok.injEq] at h
      exact ⟨forest, h ▸ hlen, by simp⟩
  | cons token rest ih =>
      rw [List.foldlM_cons] at h
      obtain ⟨middle, hs, hrest⟩ := Fault.bind_eq_ok_iff.mp h
      obtain ⟨forest', hlen', hspell'⟩ := step_spelling hs hlen
      obtain ⟨grown, hgrown, hspell⟩ := ih hrest forest' hlen'
      refine ⟨grown, hgrown, ?_⟩
      rw [hspell, hspell', List.append_assoc, List.singleton_append]

theorem exists_tree_of_evaluate {store : Store} {tokens : List Token} {value : Float}
    (h : evaluate store tokens = .ok value) : ∃ tree : Tree, tree.postorder = tokens := by
  obtain ⟨values, hrun, hlast⟩ := Fault.bind_eq_ok_iff.mp h
  obtain ⟨forest, hlen, hspell⟩ := foldlM_spelling hrun [] rfl
  match values, forest, hlen with
  | [_], [tree], _ => exact ⟨tree, by simpa [spelling] using hspell⟩
  | [], _, _ => cases hlast
  | _ :: _ :: _, _, _ => cases hlast

/-- The evaluator accepts the postorders of binary trees and nothing else. Of such a
tree it gives the recursive value, or the fault that comes first in postorder, which is
an unknown variable or a division by zero. -/
theorem evaluate_postorder_classified (store : Store) (tokens : List Token) :
    (∀ tree : Tree, tree.postorder = tokens →
      evaluate store tokens = tree.value store ∧
      evaluate store tokens ≠ .error .malformedExpression ∧
      (∀ symbol, evaluate store tokens ≠ .error (.unsupportedOperator symbol)) ∧
      ∀ fault, evaluate store tokens = .error fault ↔ tree.firstFault? store = some fault) ∧
    ((∀ tree : Tree, tree.postorder ≠ tokens) → ∃ fault, evaluate store tokens = .error fault) := by
  constructor
  · rintro tree rfl
    have hkind (fault : Fault) (h : tree.value store = .error fault) := Tree.value_error_kind h
    rw [evaluate_postorder]
    refine ⟨rfl, ?_, ?_, Tree.value_eq_error_iff store tree⟩
    · intro h
      rcases hkind _ h with h | ⟨name, h⟩ <;> cases h
    · intro symbol h
      rcases hkind _ h with h | ⟨name, h⟩ <;> cases h
  · intro hnone
    cases h : evaluate store tokens with
    | error fault => exact ⟨fault, rfl⟩
    | ok value =>
        obtain ⟨tree, ht⟩ := exists_tree_of_evaluate h
        exact absurd ht (hnone tree)

theorem evaluate_quotient_and_leftover :
    evaluate .empty [.number "1", .number "0", .operator .divide, .identifier "x", .operator .add] =
        .error .divisionByZero ∧
      ∃ fault, evaluate .empty [.number "1", .number "2"] = .error fault := by
  let quotient : Tree := .node .divide (.leaf (.number "1")) (.leaf (.number "0"))
  have hsum := (evaluate_postorder_classified .empty _).1
    (.node .add quotient (.leaf (.identifier "x"))) rfl
  refine ⟨(hsum.2.2.2 _).mpr (by decide), (evaluate_postorder_classified .empty _).2 ?_⟩
  intro tree h
  have hlast := congrArg List.getLast? h
  cases tree with
  | leaf operand => cases operand <;> simp [Tree.postorder] at h
  | node op left right => simp [Tree.postorder] at hlast

end Postfix

end DeskCalculator
