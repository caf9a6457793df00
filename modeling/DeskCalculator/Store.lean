namespace DeskCalculator

/-- Named values. The entries are kept in the order of their names, each name
once, so that two stores with the same contents are equal. -/
@[ext]
structure Store where
  entries : List (String × Float)
  ordered : entries.Pairwise (fun a b => a.1 < b.1)

namespace Store

def empty : Store := ⟨[], .nil⟩

def insertEntry (name : String) (value : Float) : List (String × Float) → List (String × Float)
  | [] => [(name, value)]
  | entry :: rest =>
    if name = entry.1 then (name, value) :: rest
    else if name < entry.1 then (name, value) :: entry :: rest
    else entry :: insertEntry name value rest

theorem fst_of_mem_insertEntry {name : String} {value : Float} {entries : List (String × Float)}
    {e : String × Float} (h : e ∈ insertEntry name value entries) : e.1 = name ∨ e ∈ entries := by
  induction entries with
  | nil => simp_all [insertEntry]
  | cons entry rest ih => grind [insertEntry]

theorem insertEntry_ordered (name : String) (value : Float) (entries : List (String × Float))
    (h : entries.Pairwise (fun a b => a.1 < b.1)) :
    (insertEntry name value entries).Pairwise (fun a b => a.1 < b.1) := by
  induction entries with
  | nil => simp [insertEntry]
  | cons entry rest ih =>
    obtain ⟨hfirst, hrest⟩ := List.pairwise_cons.1 h
    by_cases heq : name = entry.1
    · simp only [insertEntry, heq, if_true]
      exact List.pairwise_cons.2 ⟨hfirst, hrest⟩
    · by_cases hlt : name < entry.1
      · simp only [insertEntry, heq, hlt, if_false, if_true]
        refine List.pairwise_cons.2 ⟨fun e he => ?_, h⟩
        rcases List.mem_cons.1 he with rfl | he
        · exact hlt
        · exact String.lt_trans hlt (hfirst e he)
      · simp only [insertEntry, heq, hlt, if_false]
        refine List.pairwise_cons.2 ⟨fun e he => ?_, ih hrest⟩
        rcases fst_of_mem_insertEntry he with hname | he
        · rw [hname]
          exact Std.lt_of_le_of_ne (Std.not_lt.1 hlt) (Ne.symm heq)
        · exact hfirst e he

def insert (store : Store) (name : String) (value : Float) : Store :=
  ⟨insertEntry name value store.entries, insertEntry_ordered name value _ store.ordered⟩

def keep {Failure : Type} (store : Store) (name : String) : Except Failure Float → Store
  | .ok value => store.insert name value
  | .error _ => store

def ofList (entries : List (String × Float)) : Store :=
  entries.foldl (fun store entry => store.insert entry.1 entry.2) empty

def get? (store : Store) (name : String) : Option Float := store.entries.lookup name

def contains (store : Store) (name : String) : Bool := (store.get? name).isSome

theorem lookup_insertEntry (name other : String) (value : Float) (entries : List (String × Float)) :
    (insertEntry name value entries).lookup other =
      if other = name then some value else entries.lookup other := by
  induction entries with
  | nil => grind [insertEntry]
  | cons entry rest ih => grind [insertEntry]

theorem get?_insert (store : Store) (name other : String) (value : Float) :
    (store.insert name value).get? other = if other = name then some value else store.get? other :=
  lookup_insertEntry name other value store.entries

def names (store : Store) : List String := store.entries.map Prod.fst

def size (store : Store) : Nat := store.entries.length

def isEmpty (store : Store) : Bool := store.entries.isEmpty

/-- Whether two stores hold the same names with values that compare equal as
numbers: zeros of either sign are equal, and what is not a number is not equal to itself. -/
def agree (a b : Store) : Bool :=
  List.isEqv a.entries b.entries (fun x y => x.1 == y.1 && x.2.beq y.2)

end Store

end DeskCalculator
