import DeskCalculator.Store
import Mathlib.Data.List.Perm.Basic

namespace DeskCalculator.Store

theorem mem_names_iff {store : Store} {name : String} :
    name ∈ store.names ↔ ∃ value, store.get? name = some value := by
  rw [← Option.isSome_iff_exists, get?, names, List.lookup_isSome_iff, List.mem_map]
  apply exists_congr
  intro entry
  rw [beq_iff_eq, eq_comm]

theorem mem_names_insert {store : Store} {name other : String} {value : Float} :
    name ∈ (store.insert other value).names ↔ name = other ∨ name ∈ store.names := by
  by_cases h : name = other <;> simp [mem_names_iff, get?_insert, h]

section Entries

variable {α : Type} {entries others : List (String × α)}

theorem lookup_eq_some_iff_mem (h : entries.Pairwise (fun a b => a.1 < b.1)) {name : String} {value : α} :
    entries.lookup name = some value ↔ (name, value) ∈ entries := by
  induction entries with
  | nil => simp
  | cons entry rest ih =>
      obtain ⟨hfirst, hrest⟩ := List.pairwise_cons.mp h
      obtain ⟨key, found⟩ := entry
      by_cases hname : name = key
      · subst hname
        have hnot : (name, value) ∉ rest := fun hmem => String.lt_irrefl name (hfirst _ hmem)
        rw [List.lookup_cons_self, List.mem_cons, or_iff_left hnot, Option.some_inj, Prod.mk.injEq,
          eq_self, true_and, eq_comm]
      · have hbeq : (name == key) = false := beq_false_of_ne hname
        simp [List.lookup_cons, hbeq, hname, ih hrest]

theorem eq_of_lookup (h : entries.Pairwise (fun a b => a.1 < b.1))
    (hothers : others.Pairwise (fun a b => a.1 < b.1))
    (hsame : ∀ name, entries.lookup name = others.lookup name) : entries = others := by
  have hnodup {list : List (String × α)} (hlist : list.Pairwise (fun a b => a.1 < b.1)) : list.Nodup :=
    hlist.imp fun {a b} hlt (heq : a = b) => String.lt_irrefl b.1 (heq ▸ hlt)
  have hperm : entries.Perm others := by
    apply (List.perm_ext_iff_of_nodup (hnodup h) (hnodup hothers)).mpr
    rintro ⟨name, value⟩
    rw [← lookup_eq_some_iff_mem h, ← lookup_eq_some_iff_mem hothers, hsame]
  exact hperm.eq_of_pairwise (fun _ _ _ _ hab hba => absurd hba (String.lt_asymm hab)) h hothers

end Entries

theorem get?_eq_some_iff_mem {store : Store} {name : String} {value : Float} :
    store.get? name = some value ↔ (name, value) ∈ store.entries :=
  lookup_eq_some_iff_mem store.ordered

theorem ext_get? {a b : Store} (h : ∀ name, a.get? name = b.get? name) : a = b :=
  Store.ext (eq_of_lookup a.ordered b.ordered h)

theorem insert_comm (store : Store) {first second : String} (h : first ≠ second) (a b : Float) :
    (store.insert first a).insert second b = (store.insert second b).insert first a := by
  apply ext_get?
  intro name
  simp only [get?_insert]
  by_cases hname : name = second
  · rw [if_pos hname, if_neg (hname.trans_ne h.symm), if_pos hname]
  · rw [if_neg hname, if_neg hname]

end DeskCalculator.Store
