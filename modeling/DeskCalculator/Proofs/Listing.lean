import DeskCalculator.Proofs.CorrectRounding
import DeskCalculator.Proofs.SessionNames
import DeskCalculator.Proofs.StoreHistory

namespace DeskCalculator

open Character

namespace Value

/-- A text in which a value can be shown. Two of them look like names, and all others start with a
character that no name has. -/
inductive Shown : List Char → Prop
  | infinity : Shown ['i', 'n', 'f']
  | notANumber : Shown ['N', 'a', 'N']
  | number {c : Char} {rest : List Char} : isLetter c = false → '\n' ∉ c :: rest → Shown (c :: rest)

theorem Shown.newline_not_mem {text : List Char} (h : Shown text) : '\n' ∉ text := by
  cases h with
  | infinity | notANumber => decide
  | number _ hnone => exact hnone

theorem shown_minus {text : List Char} (h : '\n' ∉ text) : Shown ('-' :: text) :=
  .number rfl (List.not_mem_cons_of_ne_of_not_mem (by decide) h)

theorem newline_not_mem_magnitude (units : ℕ) : '\n' ∉ (magnitude units).toList := by
  have hdigit {c : Char} (h : c.isDigit = true ∨ c = '.') : c ≠ '\n' := by
    rintro rfl
    simp at h
  intro hmem
  by_cases hdvd : Binary64.one ∣ units
  · obtain ⟨n, hunits⟩ := exists_eq_mul_left_of_dvd hdvd
    rw [hunits, magnitude_of_whole, Decimal.toList_toString] at hmem
    exact hdigit (.inl (Decimal.isDigit_of_mem_toDigits hmem)) rfl
  · exact hdigit (Decimal.isDigit_or_point_of_mem_isFixed (isFixed_magnitude hdvd) hmem) rfl

theorem shown_signed_magnitude (negative : Bool) (units : ℕ) :
    Shown (Decimal.signed negative (magnitude units)).toList := by
  have hnone := newline_not_mem_magnitude units
  cases negative with
  | false =>
      obtain ⟨c, rest, htext, hdigit⟩ := startsWithDigit_magnitude units
      have hletter : isLetter c = false := not_isLetter_of_isNumericPart (by simp [isNumericPart, hdigit])
      rw [htext] at hnone
      rw [Decimal.signed_false, htext]
      exact .number hletter hnone
  | true =>
      rw [Decimal.toList_signed_true]
      exact shown_minus hnone

theorem shown_format (x : Float) : Shown (format x).toList := by
  rw [format]
  cases Binary64.parts x with
  | notANumber => exact .notANumber
  | infinite negative =>
      cases negative with
      | false => exact .infinity
      | true => exact shown_minus (by decide)
  | finite negative significand shift => exact shown_signed_magnitude negative _

theorem Shown.letters {c : Char} {rest : List Char} (h : Shown (c :: rest)) (hc : isLetter c = true) :
    (c :: rest).length = 3 ∧ ∀ d ∈ c :: rest, isLetter d = true := by
  generalize htext : c :: rest = text at h ⊢
  cases h with
  | infinity | notANumber => exact ⟨rfl, List.all_eq_true.mp rfl⟩
  | number hletter _ =>
      obtain ⟨rfl, -⟩ := List.cons.inj htext
      rw [hc] at hletter
      cases hletter

theorem Shown.length_or_exists {text : List Char} (h : Shown text) :
    text.length = 3 ∨ ∃ c ∈ text, isLetter c = false := by
  cases h with
  | infinity | notANumber => exact .inl rfl
  | number hletter _ => exact .inr ⟨_, List.mem_cons_self, hletter⟩

theorem eq_nil_of_shown_append {front text : List Char} (hfront : ∀ c ∈ front, isLetter c = true)
    (hwhole : Shown (front ++ text)) (h : Shown text) : front = [] := by
  cases front with
  | nil => rfl
  | cons d front =>
      exfalso
      rw [List.cons_append] at hwhole
      obtain ⟨hlength, hletters⟩ := hwhole.letters (hfront d List.mem_cons_self)
      rcases h.length_or_exists with hthree | ⟨c, hc, hnot⟩
      · rw [List.length_cons, List.length_append] at hlength
        omega
      · have hletter := hletters c (List.mem_cons_of_mem d (List.mem_append_right front hc))
        rw [hletter] at hnot
        cases hnot

end Value

namespace Command

def columns (entry text : List Char) : List Char :=
  entry ++ (List.replicate (10 - entry.length) ' ' ++ text)

def cells (entry text : String) : String :=
  "  " ++ entry ++ String.ofList (List.replicate (10 - entry.length) ' ') ++ text

/-- What stands between the ends of lines. Behind the last one there is an empty text. -/
def lines (text : String) : List String := (text.toList.splitOn '\n').map String.ofList

def rows (store : Store) : List (String × String) :=
  store.entries.map fun entry => (entry.1, Value.format entry.2)

variable {name other text shown : List Char}

/-- A longer name would go on where the first one is padded. If it is too long to be padded, the text
of its value would go on with letters. -/
theorem eq_nil_of_columns_append {more : List Char} (hmore : ∀ c ∈ more, isLetter c = true)
    (htext : Value.Shown text) (hshown : Value.Shown shown)
    (h : columns name text = columns (name ++ more) shown) : more = [] := by
  rw [columns, columns, List.append_assoc, List.append_cancel_left_eq, List.length_append] at h
  rcases Nat.eq_zero_or_pos (10 - name.length) with hlong | hshort
  · have hnone : 10 - (name.length + more.length) = 0 := by omega
    rw [hlong, hnone, List.replicate_zero, List.nil_append, List.nil_append] at h
    rw [h] at htext
    exact Value.eq_nil_of_shown_append hmore htext hshown
  · cases more with
    | nil => rfl
    | cons c more =>
        obtain ⟨k, hk⟩ := Nat.exists_eq_add_of_lt hshort
        rw [hk, List.replicate_succ] at h
        obtain ⟨rfl, -⟩ := List.cons.inj h
        cases hmore ' ' List.mem_cons_self

theorem columns_inj (hname : ∀ c ∈ name, isLetter c = true) (hother : ∀ c ∈ other, isLetter c = true)
    (htext : Value.Shown text) (hshown : Value.Shown shown) (h : columns name text = columns other shown) :
    name = other ∧ text = shown := by
  have hsame : name = other := by
    rcases List.append_eq_append_iff.mp h with ⟨more, rfl, -⟩ | ⟨more, rfl, -⟩
    · have hnone := eq_nil_of_columns_append (fun c hc => hother c (List.mem_append_right name hc)) htext hshown h
      rw [hnone, List.append_nil]
    · have hnone :=
        eq_nil_of_columns_append (fun c hc => hname c (List.mem_append_right other hc)) hshown htext h.symm
      rw [hnone, List.append_nil]
  subst hsame
  exact ⟨rfl, List.append_cancel_left (List.append_cancel_left h)⟩

theorem toList_cells (entry text : String) :
    (cells entry text).toList = ' ' :: ' ' :: columns entry.toList text.toList := by
  simp [cells, columns, String.length_toList]

theorem row_eq_cells (entry text : String) : row entry text = cells entry text ++ "\n" := rfl

theorem lines_append_newline {text : String} (h : '\n' ∉ text.toList) (rest : String) :
    lines (text ++ "\n" ++ rest) = text :: lines rest := by
  have hchars : (text ++ "\n" ++ rest).toList = text.toList ++ '\n' :: rest.toList := by simp
  rw [lines, hchars, List.splitOn_append_cons_self_of_not_mem h, List.map_cons, String.ofList_toList, lines]

structure Readable (entry : String × String) : Prop where
  name : Statement.isName entry.1 = true
  value : Value.Shown entry.2.toList

theorem Readable.isLetter {entry : String × String} (h : Readable entry) :
    ∀ c ∈ entry.1.toList, isLetter c = true :=
  (Statement.isName_iff.mp h.name).2

theorem Readable.newline_not_mem {entry : String × String} (h : Readable entry) :
    '\n' ∉ (cells entry.1 entry.2).toList := by
  have hname : '\n' ∉ entry.1.toList := fun hmem => Bool.false_ne_true (h.isLetter '\n' hmem)
  rw [toList_cells, columns]
  simp [hname, h.value.newline_not_mem]

theorem Readable.cells_ne {entry : String × String} (h : Readable entry) :
    cells entry.1 entry.2 ≠ "  (no variables)" := by
  intro heq
  obtain ⟨c, rest, hname⟩ := List.exists_cons_of_ne_nil
    (mt String.toList_eq_nil_iff.mp (Statement.isName_iff.mp h.name).1)
  have hletter := h.isLetter c (by simp [hname])
  have hchars := congrArg String.toList heq
  rw [toList_cells, columns, hname] at hchars
  obtain rfl : c = '(' := (List.cons.inj (List.cons.inj (List.cons.inj hchars).2).2).1
  cases hletter

theorem cells_inj {a b : String × String} (ha : Readable a) (hb : Readable b)
    (h : cells a.1 a.2 = cells b.1 b.2) : a = b := by
  have hchars := congrArg String.toList h
  rw [toList_cells, toList_cells] at hchars
  obtain ⟨hname, hvalue⟩ := columns_inj ha.isLetter hb.isLetter ha.value hb.value
    (List.cons.inj (List.cons.inj hchars).2).2
  exact Prod.ext (String.toList_inj.mp hname) (String.toList_inj.mp hvalue)

theorem map_cells_inj {a b : List (String × String)} (ha : ∀ entry ∈ a, Readable entry)
    (hb : ∀ entry ∈ b, Readable entry)
    (h : a.map (fun entry => cells entry.1 entry.2) = b.map fun entry => cells entry.1 entry.2) : a = b := by
  induction a generalizing b with
  | nil => exact (List.map_eq_nil_iff.mp h.symm).symm
  | cons first rest ih =>
      cases b with
      | nil => cases h
      | cons second others =>
          obtain ⟨hfirst, hrest⟩ := List.cons.inj h
          obtain ⟨hreadable, hreadables⟩ := List.forall_mem_cons.mp ha
          obtain ⟨hreadable', hreadables'⟩ := List.forall_mem_cons.mp hb
          rw [cells_inj hreadable hreadable' hfirst, ih hreadables hreadables' hrest]

theorem lines_join_rows {entries : List (String × String)} (h : ∀ entry ∈ entries, Readable entry) :
    lines (String.join (entries.map fun entry => row entry.1 entry.2)) =
      entries.map (fun entry => cells entry.1 entry.2) ++ [""] := by
  induction entries with
  | nil => rfl
  | cons entry rest ih =>
      obtain ⟨hentry, hrest⟩ := List.forall_mem_cons.mp h
      rw [List.map_cons, String.join_cons, row_eq_cells, lines_append_newline hentry.newline_not_mem, ih hrest]
      rfl

variable {a b store : Store}

theorem rows_eq_nil_iff : rows store = [] ↔ store.isEmpty = true := by
  rw [rows, List.map_eq_nil_iff, Store.isEmpty, List.isEmpty_iff]

theorem mem_rows_iff {name text : String} :
    (name, text) ∈ rows store ↔ ∃ value, store.get? name = some value ∧ text = Value.format value := by
  simp only [rows, List.mem_map, Store.get?_eq_some_iff_mem, Prod.mk.injEq]
  constructor
  · rintro ⟨entry, hentry, rfl, rfl⟩
    exact ⟨entry.2, hentry, rfl⟩
  · rintro ⟨value, hentry, rfl⟩
    exact ⟨(name, value), hentry, rfl, rfl⟩

theorem rows_ordered (store : Store) : (rows store).Pairwise (fun a b => a.1 < b.1) :=
  List.pairwise_map.mpr store.ordered

theorem rows_eq_iff :
    rows a = rows b ↔ ∀ name, (a.get? name).map Value.format = (b.get? name).map Value.format := by
  have hlookup (store : Store) (name : String) :
      (rows store).lookup name = (store.get? name).map Value.format := by
    apply Option.ext
    intro text
    rw [Store.lookup_eq_some_iff_mem (rows_ordered store), mem_rows_iff, Option.map_eq_some_iff]
    simp only [eq_comm]
  simp only [← hlookup]
  exact ⟨fun h name => by rw [h], Store.eq_of_lookup (rows_ordered a) (rows_ordered b)⟩

theorem readable_of_mem_rows (h : ∀ name ∈ store.names, Statement.isName name = true) :
    ∀ entry ∈ rows store, Readable entry := by
  intro entry hentry
  obtain ⟨pair, hpair, rfl⟩ := List.mem_map.mp hentry
  exact ⟨h pair.1 (List.mem_map_of_mem hpair), Value.shown_format pair.2⟩

theorem storeText_eq (store : Store) :
    storeText store = "Variables:" ++ "\n" ++
      if rows store = [] then "  (no variables)" ++ "\n" ++ ""
      else String.join ((rows store).map fun entry => row entry.1 entry.2) := by
  simp only [rows_eq_nil_iff]
  rw [rows, List.map_map]
  rfl

theorem lines_storeText (h : ∀ entry ∈ rows store, Readable entry) :
    lines (storeText store) = "Variables:" ::
      (if rows store = [] then ["  (no variables)"]
        else (rows store).map fun entry => cells entry.1 entry.2) ++ [""] := by
  rw [storeText_eq, lines_append_newline (by decide)]
  split
  · rw [lines_append_newline (by decide)]
    rfl
  · rw [lines_join_rows h, List.cons_append]

theorem no_variables_mem_lines_iff (h : ∀ entry ∈ rows store, Readable entry) :
    "  (no variables)" ∈ lines (storeText store) ↔ rows store = [] := by
  rw [lines_storeText h]
  split
  next hnone => simp [hnone]
  next hsome =>
    refine iff_of_false (fun hmem => ?_) hsome
    simp only [List.cons_append, List.mem_cons, List.mem_append, List.mem_map, List.not_mem_nil,
      or_false] at hmem
    rcases hmem with hheader | ⟨entry, hentry, hcells⟩ | hend
    · exact absurd hheader (by decide)
    · exact (h entry hentry).cells_ne hcells
    · exact absurd hend (by decide)

theorem storeText_eq_storeText_iff (ha : ∀ entry ∈ rows a, Readable entry)
    (hb : ∀ entry ∈ rows b, Readable entry) : storeText a = storeText b ↔ rows a = rows b := by
  refine ⟨fun h => ?_, fun h => by rw [storeText_eq, storeText_eq, h]⟩
  have hempty : rows a = [] ↔ rows b = [] := by
    rw [← no_variables_mem_lines_iff ha, h, no_variables_mem_lines_iff hb]
  by_cases hnone : rows a = []
  · rw [hnone, hempty.mp hnone]
  · have hlines := congrArg lines h
    rw [lines_storeText ha, lines_storeText hb, if_neg hnone, if_neg (mt hempty.mpr hnone)] at hlines
    exact map_cells_inj ha hb (List.cons.inj (List.append_cancel_right hlines)).2

end Command

namespace Session

theorem readable_rows (showPostfix : Bool) (inputs : List Input) :
    ∀ entry ∈ Command.rows ((new showPostfix).after inputs).store, Command.Readable entry :=
  Command.readable_of_mem_rows (isName_of_mem_names showPostfix inputs)

theorem handleLine_vars (session : Session) :
    session.handleLine .working "vars" = (session, .ok ⟨.proceed, Command.storeText session.store⟩) := by
  have htrim : Blank.trim "vars" = "vars" := by decide
  have hcommand : Command.ofLine? (Blank.trim "vars") = some .vars := by rw [htrim]; rfl
  have hnone : Command.arguments "vars" = [] := rfl
  rw [handleLine_of_command hcommand, handleCommand, htrim, hnone]
  rfl

/-- A listing has a line for each variable, in the order of the names, and nothing else. Where two
sessions answer alike they have the same names, with values that are shown alike, even if a long name
runs into a value that is shown in letters. -/
theorem handleLine_vars_listing (showPostfix : Bool) (inputs : List Input) :
    ∃ output, ((new showPostfix).after inputs).handleLine .working "vars" =
        ((new showPostfix).after inputs, .ok ⟨.proceed, output⟩) ∧
      (∃ rows : List (String × String),
        Command.lines output = "Variables:" ::
          (if rows = [] then ["  (no variables)"]
            else rows.map fun row => Command.cells row.1 row.2) ++ [""] ∧
        rows.Pairwise (fun a b => a.1 < b.1) ∧
        ∀ name text, (name, text) ∈ rows ↔
          ∃ value, ((new showPostfix).after inputs).store.get? name = some value ∧ text = Value.format value) ∧
      ("  (no variables)" ∈ Command.lines output ↔
        ((new showPostfix).after inputs).store.isEmpty = true) ∧
      ∀ (otherPostfix : Bool) (others : List Input),
        (((new otherPostfix).after others).handleLine .working "vars").2 = .ok ⟨.proceed, output⟩ ↔
          ∀ name, (((new otherPostfix).after others).store.get? name).map Value.format =
            (((new showPostfix).after inputs).store.get? name).map Value.format := by
  have hreadable := readable_rows showPostfix inputs
  refine ⟨_, handleLine_vars _, ⟨_, Command.lines_storeText hreadable, Command.rows_ordered _,
    fun _ _ => Command.mem_rows_iff⟩, ?_, fun otherPostfix others => ?_⟩
  · rw [Command.no_variables_mem_lines_iff hreadable, Command.rows_eq_nil_iff]
  · rw [← Command.rows_eq_iff,
      ← Command.storeText_eq_storeText_iff (readable_rows otherPostfix others) hreadable, handleLine_vars]
    simp

/-- The line of the infinity ends like the longer name. -/
theorem handleLine_vars_listing_infinity :
    (((new false).after ([⟨.working, "abcdefghij = 99999999999999999999"⟩] ++
      List.replicate 4 ⟨.working, "abcdefghij = abcdefghij * abcdefghij"⟩)).handleLine .working "vars").2 =
        .ok ⟨.proceed, "Variables:\n  abcdefghijinf\n"⟩ ∧
      (((new false).after [⟨.working, "abcdefghijinf = 5"⟩]).handleLine .working "vars").2 ≠
        .ok ⟨.proceed, "Variables:\n  abcdefghijinf\n"⟩ := by
  have hlisted : (((new false).after ([⟨.working, "abcdefghij = 99999999999999999999"⟩] ++
      List.replicate 4 ⟨.working, "abcdefghij = abcdefghij * abcdefghij"⟩)).handleLine .working "vars").2 =
        .ok ⟨.proceed, "Variables:\n  abcdefghijinf\n"⟩ := by decide +kernel
  refine ⟨hlisted, fun hother => ?_⟩
  obtain ⟨output, houtput, -, -, hsame⟩ := handleLine_vars_listing false
    ([⟨.working, "abcdefghij = 99999999999999999999"⟩] ++
      List.replicate 4 ⟨.working, "abcdefghij = abcdefghij * abcdefghij"⟩)
  rw [houtput] at hlisted
  cases hlisted
  have hnames := (hsame false [⟨.working, "abcdefghijinf = 5"⟩]).mp hother "abcdefghij"
  have hnone : ((new false).after [⟨.working, "abcdefghijinf = 5"⟩]).store.get? "abcdefghij" = none := by
    decide +kernel
  rw [hnone] at hnames
  exact absurd hnames (by decide +kernel)

end Session

end DeskCalculator
