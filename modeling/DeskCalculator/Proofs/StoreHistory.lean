import DeskCalculator.Proofs.Bindings
import DeskCalculator.Proofs.ByteOrder
import Mathlib.Data.List.Dedup
import Mathlib.Data.List.Induction

namespace DeskCalculator.Store

open ByteOrder

def LastSet (history : List (String × Float)) (name : String) (value : Float) : Prop :=
  ∃ front back, history = front ++ (name, value) :: back ∧ name ∉ back.map Prod.fst

variable {history : List (String × Float)} {name : String} {value : Float}

theorem ofList_append_singleton (history : List (String × Float)) (entry : String × Float) :
    ofList (history ++ [entry]) = (ofList history).insert entry.1 entry.2 := by
  rw [ofList, List.foldl_append]
  rfl

theorem get?_ofList (history : List (String × Float)) (name : String) :
    (ofList history).get? name = history.reverse.lookup name := by
  -- From the back, since the latest assignment to a name is the one that stays.
  induction history using List.reverseRecOn with
  | nil => rfl
  | append_singleton history entry ih =>
      rw [ofList_append_singleton, get?_insert, ih, List.reverse_append, List.reverse_singleton,
        List.singleton_append]
      by_cases hname : name = entry.1
      · subst hname
        rw [if_pos rfl, List.lookup_cons_self]
      · rw [if_neg hname, List.lookup_cons, beq_false_of_ne hname]

theorem get?_ofList_eq_some_iff : (ofList history).get? name = some value ↔ LastSet history name value := by
  rw [get?_ofList, List.lookup_eq_some_iff]
  constructor
  · rintro ⟨later, earlier, hsplit, hlater⟩
    refine ⟨earlier.reverse, later.reverse, ?_, ?_⟩
    · rw [← List.reverse_reverse history, hsplit]
      simp
    · rintro hmem
      obtain ⟨entry, hentry, rfl⟩ := List.mem_map.mp hmem
      exact bne_iff_ne.mp (hlater entry (List.mem_reverse.mp hentry)) rfl
  · rintro ⟨earlier, later, rfl, hlater⟩
    refine ⟨later.reverse, earlier.reverse, by simp, fun entry hentry => ?_⟩
    rw [bne_iff_ne]
    rintro rfl
    exact hlater (List.mem_map_of_mem (List.mem_reverse.mp hentry))

theorem get?_ofList_eq_none_iff : (ofList history).get? name = none ↔ name ∉ history.map Prod.fst := by
  rw [get?_ofList, List.lookup_eq_none_iff, List.mem_map]
  simp only [List.mem_reverse, bne_iff_ne]
  grind

theorem mem_names_ofList : name ∈ (ofList history).names ↔ name ∈ history.map Prod.fst := by
  rw [mem_names_iff, ← Option.isSome_iff_exists, ← Option.ne_none_iff_isSome, Ne, get?_ofList_eq_none_iff,
    Decidable.not_not]

theorem names_ordered (store : Store) : store.names.Pairwise (· < ·) :=
  List.pairwise_map.mpr store.ordered

theorem names_nodup (store : Store) : store.names.Nodup := by
  apply (names_ordered store).imp
  rintro name _ hlt rfl
  exact String.lt_irrefl name hlt

theorem names_perm_dedup (history : List (String × Float)) :
    (ofList history).names.Perm (history.map Prod.fst).dedup := by
  apply (List.perm_ext_iff_of_nodup (names_nodup _) (List.nodup_dedup _)).mpr
  intro name
  rw [mem_names_ofList, List.mem_dedup]

theorem names_eq_of_perm {a b : Store} (h : a.names.Perm b.names) : a.names = b.names :=
  h.eq_of_pairwise (fun _ _ _ _ hab hba => absurd hba (String.lt_asymm hab)) (names_ordered a) (names_ordered b)

theorem mergeSort_eq_names {store : Store} {listed : List String} (h : listed.Perm store.names) :
    listed.mergeSort (fun a b => decide (bytes a ≤ bytes b)) = store.names := by
  simp only [bytes_le_bytes_iff]
  have hsorted : (listed.mergeSort (fun a b => decide (a ≤ b))).Pairwise (· ≤ ·) := by
    have hpairwise := @List.pairwise_mergeSort _ (fun a b : String => decide (a ≤ b))
      (fun a b c hab hbc => decide_eq_true (String.le_trans (of_decide_eq_true hab) (of_decide_eq_true hbc)))
      (fun a b => by simpa using String.le_total a b) listed
    exact hpairwise.imp of_decide_eq_true
  exact ((List.mergeSort_perm _ _).trans h).eq_of_pairwise (fun _ _ _ _ => String.le_antisymm) hsorted
    ((names_ordered store).imp Std.le_of_lt)

/-- A store that has been filled by any assignments in a row is a finite map. It holds the last value
of each name, and lists each name once, in the order of the bytes. The listing is that of the set of
names, whatever order they were first set in. -/
theorem ofList_is_map (history : List (String × Float)) :
    (∀ name value, (ofList history).get? name = some value ↔ LastSet history name value) ∧
    (∀ name, (ofList history).get? name = none ↔ name ∉ history.map Prod.fst) ∧
    (∀ name, (ofList history).contains name = true ↔ ∃ value, (ofList history).get? name = some value) ∧
    (ofList history).size = (history.map Prod.fst).dedup.length ∧
    ((ofList history).isEmpty = true ↔ (ofList history).size = 0) ∧
    (ofList history).names.Perm (history.map Prod.fst).dedup ∧
    (ofList history).names.Nodup ∧
    (ofList history).names.Pairwise (fun a b => bytes a < bytes b) ∧
    (∀ listed : List String, listed.Perm (history.map Prod.fst).dedup →
      listed.mergeSort (fun a b => decide (bytes a ≤ bytes b)) = (ofList history).names) ∧
    ∀ other : List (String × Float), (∀ name, name ∈ other.map Prod.fst ↔ name ∈ history.map Prod.fst) →
      (ofList other).names = (ofList history).names := by
  have hperm := names_perm_dedup history
  refine ⟨fun _ _ => get?_ofList_eq_some_iff, fun _ => get?_ofList_eq_none_iff,
    fun _ => Option.isSome_iff_exists, ?_, ?_, hperm, names_nodup _, ?_,
    fun listed hlisted => mergeSort_eq_names (hlisted.trans hperm.symm), fun other hsame => ?_⟩
  · rw [← hperm.length_eq, names, List.length_map, size]
  · rw [isEmpty, size, List.isEmpty_iff, List.length_eq_zero_iff]
  · exact (names_ordered _).imp bytes_lt_bytes
  · apply names_eq_of_perm
    apply (List.perm_ext_iff_of_nodup (names_nodup _) (names_nodup _)).mpr
    intro name
    rw [mem_names_ofList, mem_names_ofList, hsame]

/-- Behind the last letter without an accent come the letters with one. -/
theorem ofList_is_map_overwritten :
    (ofList [("é", 3), ("z", 1), ("b", 4), ("z", 2)]).names = ["b", "z", "é"] ∧
      (ofList [("z", 0), ("b", 0), ("é", 0)]).names = ["b", "z", "é"] ∧
      ["z", "é", "b"].mergeSort (fun a b => decide (bytes a ≤ bytes b)) = ["b", "z", "é"] := by
  have hnames : (ofList [("é", 3), ("z", 1), ("b", 4), ("z", 2)]).names = ["b", "z", "é"] := by decide +kernel
  have hmembers (name : String) : name ∈ ["z", "b", "é"] ↔ name ∈ ["é", "z", "b", "z"] := by
    simp only [List.mem_cons, List.not_mem_nil, or_false]
    tauto
  obtain ⟨-, -, -, -, -, -, -, -, hlisted, hsame⟩ := ofList_is_map [("é", 3), ("z", 1), ("b", 4), ("z", 2)]
  refine ⟨hnames, ?_, ?_⟩
  · rw [hsame [("z", 0), ("b", 0), ("é", 0)] hmembers, hnames]
  · rw [hlisted ["z", "é", "b"] (by decide), hnames]

end DeskCalculator.Store
