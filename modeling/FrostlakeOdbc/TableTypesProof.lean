import FrostlakeOdbc.ListingProof

/-!
# Which rows a type list keeps

`SQLTables` takes over the rows of its answer whose type is in the list of the argument. The scanner
of the list (`type_list_contains`) takes quotes, commas and spaces for one class of separators, so it
reads an empty word behind a quote that ends the list. That word is the type of a row whose type is
the empty text: such a row is shown under a list that ends with a quote, although no name is empty
(`sqlTables_lists_iff`).
-/

namespace FrostlakeOdbc

open CString Exchange Client Scan

/-! ## Lists of type names -/

/-- A name of a table type, as a list may have it. -/
structure TypeName where
  text : Bytes
  ne_nil : text ≠ []
  ne_all : text ≠ lit "%"
  plain : ∀ c ∈ text, c ≠ ch ',' ∧ c ≠ ch '\''
  head_ne : text.head? ≠ some (ch ' ')
  getLast_ne : text.getLast? ≠ some (ch ' ')

/-- An entry of a list: a name with spaces around it, bare or in quotes. -/
structure TypeEntry where
  name : TypeName
  quoted : Bool
  before : ℕ
  /-- The spaces between the name and its quotes. -/
  left : ℕ
  right : ℕ
  after : ℕ

def spaces (n : ℕ) : Bytes := List.replicate n (ch ' ')

def TypeEntry.quote (entry : TypeEntry) : Bytes := if entry.quoted then [ch '\''] else []

def TypeEntry.text (entry : TypeEntry) : Bytes :=
  spaces entry.before ++ entry.quote ++ spaces entry.left ++ entry.name.text ++ spaces entry.right ++
    entry.quote ++ spaces entry.after

/-- The text of a list. -/
def typeListText (entries : List TypeEntry) : Bytes :=
  [ch ','].intercalate (entries.map TypeEntry.text)

/-- Whether the last name of a list is in quotes. -/
def endsQuoted (entries : List TypeEntry) : Bool := entries.getLast?.any TypeEntry.quoted

def isTypeSeparator (c : UInt8) : Bool := c = ch ' ' || c = ch ',' || c = ch '\''

/-! ## The scanner of a list -/

section

variable {wanted : Bytes}

/-- One step of the scanner: the separators in front of a word, and the word up to the next comma or
quote. -/
theorem typeListContainsFrom_word {seps word tail : Bytes} (fuel : ℕ)
    (hne : seps ++ (word ++ tail) ≠ []) (hseps : ∀ c ∈ seps, isTypeSeparator c = true)
    (hhead : ∀ c ∈ (word ++ tail).head?, isTypeSeparator c = false)
    (hword : ∀ c ∈ word, c ≠ ch ',' ∧ c ≠ ch '\'')
    (htail : ∀ c ∈ tail.head?, c = ch ',' ∨ c = ch '\'') :
    typeListContainsFrom (fuel + 1) (seps ++ (word ++ tail)) wanted =
      (strcaseeq (trimEnd (· = ch ' ') word) wanted || typeListContainsFrom fuel tail wanted) := by
  have hdrop := (takeWhile_append_stop hseps hhead).2
  have hinside : ∀ c ∈ word, (decide (c ≠ ch ',') && decide (c ≠ ch '\'')) = true := by
    intro c hc
    rw [Bool.and_eq_true, decide_eq_true_eq, decide_eq_true_eq]
    exact hword c hc
  have hstop : ∀ c ∈ tail.head?, (decide (c ≠ ch ',') && decide (c ≠ ch '\'')) = false := by
    intro c hc
    rcases htail c hc with rfl | rfl <;> rfl
  obtain ⟨htake, hrest⟩ := takeWhile_append_stop hinside hstop
  obtain ⟨c, rest, hcons⟩ := List.exists_cons_of_ne_nil hne
  rw [hcons] at hdrop ⊢
  unfold isTypeSeparator at hdrop
  rw [typeListContainsFrom, hdrop, htake, hrest]
  simp only [← strcaseeq_iff]
  cases strcaseeq (trimEnd (· = ch ' ') word) wanted with
  | true => rw [if_pos rfl, Bool.true_or]
  | false => rw [if_neg Bool.false_ne_true, Bool.false_or]

theorem typeListContainsFrom_nil (fuel : ℕ) : typeListContainsFrom fuel [] wanted = false := by
  cases fuel <;> rfl

/-- Behind the last name of a list only separators follow, and where there are any the scanner reads
an empty word. -/
theorem typeListContainsFrom_end {seps : Bytes} {fuel : ℕ} (hne : seps ≠ [])
    (hseps : ∀ c ∈ seps, isTypeSeparator c = true) (hfuel : seps.length ≤ fuel) :
    typeListContainsFrom fuel seps wanted = decide (wanted = []) := by
  obtain ⟨fuel, rfl⟩ := Nat.exists_eq_succ_of_ne_zero
    (Nat.ne_zero_of_lt (Nat.lt_of_lt_of_le (List.length_pos_iff.2 hne) hfuel))
  have h := @typeListContainsFrom_word wanted seps [] [] fuel (by simpa using hne) hseps (by simp)
    (by simp) (by simp)
  rw [List.append_nil, List.append_nil, typeListContainsFrom_nil, Bool.or_false] at h
  rw [h]
  cases wanted <;> rfl

theorem isTypeSeparator_of_mem_spaces {n : ℕ} : ∀ c ∈ spaces n, isTypeSeparator c = true := by
  intro c hc
  rw [List.eq_of_mem_replicate hc]
  decide

theorem TypeEntry.isTypeSeparator_of_mem_quote (entry : TypeEntry) :
    ∀ c ∈ entry.quote, isTypeSeparator c = true := by
  unfold TypeEntry.quote
  split
  · intro c hc
    rw [List.mem_singleton.1 hc]
    decide
  · intro c hc
    cases hc

theorem TypeName.exists_cons (name : TypeName) :
    ∃ c rest, name.text = c :: rest ∧ isTypeSeparator c = false := by
  obtain ⟨c, rest, htext⟩ := List.exists_cons_of_ne_nil name.ne_nil
  refine ⟨c, rest, htext, ?_⟩
  have hhead := name.head_ne
  have hplain := name.plain c (by simp [htext])
  rw [htext, List.head?_cons] at hhead
  unfold isTypeSeparator
  rw [decide_eq_false fun h => hhead (congrArg some h), decide_eq_false hplain.1,
    decide_eq_false hplain.2]
  rfl

/-- The spaces behind a name are no part of it. -/
theorem TypeName.trimEnd_append_spaces (name : TypeName) (n : ℕ) :
    trimEnd (· = ch ' ') (name.text ++ spaces n) = name.text := by
  obtain ⟨c, hlast⟩ := Option.ne_none_iff_exists'.1 (mt List.getLast?_eq_none_iff.1 name.ne_nil)
  have hspaces : ∀ c ∈ spaces n, decide (c = ch ' ') = true := fun c hc =>
    decide_eq_true (List.eq_of_mem_replicate hc)
  rw [trimEnd_append hspaces]
  apply trimEnd_of_getLast? hlast
  exact decide_eq_false fun h => name.getLast_ne (h ▸ hlast)

/-- What the scanner has in front of it behind the name of an entry. -/
def TypeEntry.behind (entry : TypeEntry) (tail : Bytes) : Bytes :=
  if entry.quoted then ch '\'' :: (spaces entry.after ++ tail) else tail

theorem typeListContainsFrom_entry (entry : TypeEntry) {seps tail : Bytes} (fuel : ℕ)
    (hseps : ∀ c ∈ seps, isTypeSeparator c = true) (htail : ∀ c ∈ tail.head?, c = ch ',') :
    typeListContainsFrom (fuel + 1) (seps ++ (entry.text ++ tail)) wanted =
      (strcaseeq entry.name.text wanted || typeListContainsFrom fuel (entry.behind tail) wanted) := by
  obtain ⟨c, rest, hname, hc⟩ := entry.name.exists_cons
  have hfront : ∀ d ∈ seps ++ (spaces entry.before ++ entry.quote ++ spaces entry.left),
      isTypeSeparator d = true := by
    simp only [List.forall_mem_append]
    exact ⟨hseps, ⟨isTypeSeparator_of_mem_spaces, entry.isTypeSeparator_of_mem_quote⟩,
      isTypeSeparator_of_mem_spaces⟩
  -- the word goes up to the closing quote, or up to the comma
  obtain ⟨n, htext⟩ : ∃ n, seps ++ (entry.text ++ tail) =
      seps ++ (spaces entry.before ++ entry.quote ++ spaces entry.left) ++
        (entry.name.text ++ spaces n ++ entry.behind tail) := by
    unfold TypeEntry.text TypeEntry.behind TypeEntry.quote
    cases entry.quoted with
    | true =>
      refine ⟨entry.right, ?_⟩
      simp only [if_true, List.append_assoc, List.cons_append, List.nil_append]
    | false =>
      refine ⟨entry.right + entry.after, ?_⟩
      have hspaces : spaces (entry.right + entry.after) = spaces entry.right ++ spaces entry.after :=
        List.replicate_add _ _ _
      rw [hspaces]
      simp only [Bool.false_eq_true, if_false, List.append_assoc, List.nil_append]
  have hword : ∀ d ∈ entry.name.text ++ spaces n, d ≠ ch ',' ∧ d ≠ ch '\'' := by
    rw [List.forall_mem_append]
    refine ⟨entry.name.plain, fun d hd => ?_⟩
    rw [List.eq_of_mem_replicate hd]
    decide
  have hbehind : ∀ d ∈ (entry.behind tail).head?, d = ch ',' ∨ d = ch '\'' := by
    unfold TypeEntry.behind
    split
    · rintro d ⟨⟩
      exact .inr rfl
    · exact fun d hd => .inl (htail d hd)
  rw [htext, typeListContainsFrom_word fuel _ hfront _ hword hbehind,
    entry.name.trimEnd_append_spaces]
  · simp [hname]
  · rw [hname]
    rintro d ⟨⟩
    exact hc

@[simp] theorem typeListText_singleton (entry : TypeEntry) : typeListText [entry] = entry.text := by
  simp [typeListText, List.intercalate]

theorem typeListText_cons_cons (entry next : TypeEntry) (entries : List TypeEntry) :
    typeListText (entry :: next :: entries) = entry.text ++ ch ',' :: typeListText (next :: entries) := by
  simp [typeListText, List.intercalate]

theorem TypeEntry.length_behind_lt (entry : TypeEntry) (tail : Bytes) :
    (entry.behind tail).length < (entry.text ++ tail).length := by
  have hname := List.length_pos_iff.2 entry.name.ne_nil
  unfold TypeEntry.behind TypeEntry.text TypeEntry.quote
  split <;> simp only [List.length_append, List.length_cons, List.length_nil] <;> omega

/-- The scanner finds the names of a list, and an empty one behind a quote that ends it. -/
theorem typeListContainsFrom_entries {entries : List TypeEntry} (hne : entries ≠ []) {seps : Bytes}
    {fuel : ℕ} (hseps : ∀ c ∈ seps, isTypeSeparator c = true)
    (hfuel : (seps ++ typeListText entries).length ≤ fuel) :
    typeListContainsFrom fuel (seps ++ typeListText entries) wanted =
      (entries.any (fun entry => strcaseeq entry.name.text wanted) ||
        endsQuoted entries && decide (wanted = [])) := by
  induction entries generalizing seps fuel with
  | nil => exact absurd rfl hne
  | cons entry entries ih =>
    cases entries with
    | nil =>
      have hlt := entry.length_behind_lt []
      rw [typeListText_singleton] at hfuel ⊢
      rw [List.append_nil] at hlt
      rw [List.length_append] at hfuel
      obtain ⟨fuel, rfl⟩ := Nat.exists_eq_succ_of_ne_zero (n := fuel) (by omega)
      have hentry := @typeListContainsFrom_entry wanted entry seps [] fuel hseps (by simp)
      rw [List.append_nil] at hentry
      rw [hentry, List.any_cons, List.any_nil, Bool.or_false]
      congr 1
      show _ = (entry.quoted && decide (wanted = []))
      unfold TypeEntry.behind at hlt ⊢
      cases hquoted : entry.quoted with
      | true =>
        rw [hquoted, if_pos rfl] at hlt
        rw [if_pos rfl, Bool.true_and]
        apply typeListContainsFrom_end (List.cons_ne_nil _ _) _ (by omega)
        rw [List.append_nil, List.forall_mem_cons]
        exact ⟨by decide, isTypeSeparator_of_mem_spaces⟩
      | false =>
        rw [if_neg Bool.false_ne_true, Bool.false_and, typeListContainsFrom_nil]
    | cons next entries =>
      have hlt := entry.length_behind_lt (ch ',' :: typeListText (next :: entries))
      rw [typeListText_cons_cons] at hfuel ⊢
      rw [List.length_append] at hfuel
      obtain ⟨fuel, rfl⟩ := Nat.exists_eq_succ_of_ne_zero (n := fuel) (by omega)
      rw [typeListContainsFrom_entry entry fuel hseps (by rintro c ⟨⟩; rfl), List.any_cons,
        Bool.or_assoc]
      congr 1
      -- the comma is one more separator in front of the rest
      obtain ⟨seps', hbehind, hseps'⟩ : ∃ seps',
          entry.behind (ch ',' :: typeListText (next :: entries)) =
            seps' ++ typeListText (next :: entries) ∧ ∀ c ∈ seps', isTypeSeparator c = true := by
        unfold TypeEntry.behind
        split
        · refine ⟨ch '\'' :: (spaces entry.after ++ [ch ',']), by simp, ?_⟩
          simp only [List.forall_mem_cons, List.forall_mem_append]
          exact ⟨by decide, isTypeSeparator_of_mem_spaces, by decide, by simp⟩
        · exact ⟨[ch ','], rfl, by simp only [List.forall_mem_cons]; exact ⟨by decide, by simp⟩⟩
      rw [hbehind] at hlt ⊢
      exact ih (List.cons_ne_nil _ _) hseps' (by omega)

/-- A list is neither empty nor `%`. -/
theorem isEmptyOrAll_typeListText {entries : List TypeEntry} (hne : entries ≠ []) :
    isEmptyOrAll (some (typeListText entries)) = false := by
  obtain ⟨entry, entries, rfl⟩ := List.exists_cons_of_ne_nil hne
  have hsublist : entry.name.text.Sublist (typeListText (entry :: entries)) := by
    have htext : entry.name.text.Sublist entry.text := by
      unfold TypeEntry.text
      simp only [List.append_assoc]
      rw [← List.append_assoc, ← List.append_assoc]
      exact (List.infix_append' _ _ _).sublist
    cases entries with
    | nil => rwa [typeListText_singleton]
    | cons next entries =>
      rw [typeListText_cons_cons]
      exact htext.trans (List.sublist_append_left _ _)
  simp only [isEmptyOrAll, Bool.or_eq_false_iff, decide_eq_false_iff_not]
  constructor
  · intro hnil
    rw [hnil] at hsublist
    exact entry.name.ne_nil (List.sublist_nil.1 hsublist)
  · intro hall
    rw [hall] at hsublist
    exact (List.sublist_singleton.1 hsublist).elim entry.name.ne_nil entry.name.ne_all

theorem typeListContains_text {entries : List TypeEntry} (hne : entries ≠ []) :
    typeListContains (some (typeListText entries)) wanted =
      (entries.any (fun entry => strcaseeq entry.name.text wanted) ||
        endsQuoted entries && decide (wanted = [])) := by
  unfold typeListContains
  rw [isEmptyOrAll_typeListText hne, if_neg Bool.false_ne_true]
  exact @typeListContainsFrom_entries wanted entries hne [] _ (by simp) le_rfl

end

/-! ## The rows -/

/-- A row of the answer to the listing query. -/
structure ListedTable where
  catalog : Option Bytes
  schema : Option Bytes
  name : Option Bytes
  type : Option Bytes

def listedTable (listed : ResultSet) (r : ℕ) : ListedTable :=
  let cell (name : String) : Option Bytes := listed.cellText r (columnIndex listed name)
  ⟨cell "table_catalog", cell "table_schema", cell "table_name", cell "table_type"⟩

/-- The rows of the answer, in its order. -/
def listedTables (listed : ResultSet) : List ListedTable :=
  (List.range listed.rowCount.toNat).map (listedTable listed)

/-- The type of a row, `BASE TABLE` read as `TABLE`. -/
def ListedTable.kind (row : ListedTable) : Option Bytes :=
  row.type.map fun type => if strcaseeq type (lit "BASE TABLE") then lit "TABLE" else type

/-- A row without a type, or of a type that is one of the names. -/
def ListedTable.isWanted (entries : List TypeEntry) (row : ListedTable) : Bool :=
  row.kind.all fun kind => entries.any fun entry => strcaseeq entry.name.text kind

/-- A row as the application is to read it. -/
def ListedTable.texts (row : ListedTable) : List (Option Bytes) :=
  [row.catalog, row.schema, some (row.name.getD []), some (row.kind.getD (lit "TABLE")), none]

/-- The texts of a result set, row by row. -/
def ResultSet.texts (set : ResultSet) : List (List (Option Bytes)) :=
  (List.range set.rowCount.toNat).map fun r =>
    (List.range set.columnCount.toNat).map fun c => set.cellText r (some c)

/-- A result set holds just the rows of an answer that are wanted, in the answer's order. -/
def ListsTypes (entries : List TypeEntry) (listed set : ResultSet) : Prop :=
  set.texts = ((listedTables listed).filter (·.isWanted entries)).map ListedTable.texts

theorem texts_flSynthNew {columns : List Column} {rows : List (List Cell)}
    (hrows : ∀ row ∈ rows, row.length = columns.length) :
    (flSynthNew columns rows).texts = rows.map (List.map Cell.shown) := by
  have hcount : (flSynthNew columns rows).rowCount.toNat = rows.length := Int.toNat_natCast _
  have hcolumns : (flSynthNew columns rows).columnCount.toNat = columns.length := Int.toNat_natCast _
  unfold ResultSet.texts
  rw [hcount, hcolumns]
  apply List.ext_getElem
  · rw [List.length_map, List.length_map, List.length_range]
  · intro r hr _
    rw [List.length_map, List.length_range] at hr
    rw [List.getElem_map, List.getElem_map, List.getElem_range]
    apply List.ext_getElem
    · rw [List.length_map, List.length_map, List.length_range, hrows _ (List.getElem_mem hr)]
    · intro c hc hc'
      rw [List.length_map, List.length_range] at hc
      rw [List.length_map] at hc'
      rw [List.getElem_map, List.getElem_map, List.getElem_range, cellText_flSynthNew hrows r hc,
        List.getElem?_eq_getElem hr, Option.bind_some, List.getElem?_eq_getElem hc', Option.bind_some]

/-- The row that is added for a row of the answer. -/
def ListedTable.cells (row : ListedTable) : List Cell :=
  [synthOptional row.catalog, synthOptional row.schema, flSynthText (row.name.getD []),
    flSynthText (row.kind.getD (lit "TABLE")), flSynthNull]

theorem ListedTable.map_shown_cells (row : ListedTable) : row.cells.map Cell.shown = row.texts := by
  unfold ListedTable.cells ListedTable.texts
  rw [List.map_cons, List.map_cons, shown_synthOptional, shown_synthOptional]
  rfl

/-- The rows of the answer that are taken over. -/
theorem filterMap_tableRow (types : Option Bytes) (listed : ResultSet) :
    (List.range listed.rowCount.toNat).filterMap (tableRow types listed) =
      ((listedTables listed).filter fun row => row.kind.all (typeListContains types)).map
        ListedTable.cells := by
  unfold listedTables
  rw [List.filter_map, List.map_map, ← List.filterMap_eq_map, List.filterMap_filter]
  rfl

theorem texts_tables (types : Option Bytes) (listed : ResultSet) :
    (tablesShape ((List.range listed.rowCount.toNat).filterMap (tableRow types listed))).texts =
      ((listedTables listed).filter fun row => row.kind.all (typeListContains types)).map
        ListedTable.texts := by
  rw [filterMap_tableRow]
  unfold tablesShape
  rw [texts_flSynthNew, List.map_map]
  · exact List.map_congr_left fun row _ => row.map_shown_cells
  · intro row hrow
    obtain ⟨row, -, rfl⟩ := List.mem_map.1 hrow
    rfl

/-- Where one filter keeps what another does, the two give the same exactly if it keeps nothing else. -/
theorem map_filter_eq_iff {α β : Type} {p q : α → Bool} {f : α → β} {l : List α}
    (hqp : ∀ a, q a = true → p a = true) :
    (l.filter p).map f = (l.filter q).map f ↔ ∀ a ∈ l, p a = true → q a = true := by
  constructor
  · intro h a ha hp
    have hsub : (l.filter q).Sublist (l.filter p) := List.monotone_filter_right l hqp
    have hlen := congrArg List.length h
    rw [List.length_map, List.length_map] at hlen
    have hmem : a ∈ l.filter q := by
      rw [hsub.eq_of_length hlen.symm]
      exact List.mem_filter.2 ⟨ha, hp⟩
    exact (List.mem_filter.1 hmem).2
  · intro h
    congr 1
    apply List.filter_congr
    intro a ha
    rw [Bool.eq_iff_iff]
    exact ⟨h a ha, hqp a⟩

theorem kind_eq_some_nil_iff {row : ListedTable} : row.kind = some [] ↔ row.type = some [] := by
  unfold ListedTable.kind
  cases row.type with
  | none => exact iff_of_false nofun nofun
  | some type =>
    rw [Option.map_some, Option.some.injEq, Option.some.injEq]
    split
    · next hbase =>
      refine iff_of_false (by decide) ?_
      rintro rfl
      revert hbase
      decide
    · rfl

/-- The rows that are taken over are those that are wanted, except that a row of the empty type comes
along where the list ends with a quote. -/
theorem listsTypes_tables_iff {entries : List TypeEntry} (hne : entries ≠ []) (listed : ResultSet) :
    ListsTypes entries listed (tablesShape ((List.range listed.rowCount.toNat).filterMap
        (tableRow (some (typeListText entries)) listed))) ↔
      endsQuoted entries = false ∨ ∀ row ∈ listedTables listed, row.type ≠ some [] := by
  have hkept : ∀ row : ListedTable, row.kind.all (typeListContains (some (typeListText entries))) =
      (row.isWanted entries || endsQuoted entries && decide (row.kind = some [])) := by
    intro row
    unfold ListedTable.isWanted
    cases row.kind with
    | none => rw [Option.all_none, Option.all_none, Bool.true_or]
    | some kind =>
      rw [Option.all_some, Option.all_some, typeListContains_text hne]
      simp only [Option.some.injEq]
  -- no name is empty
  have hempty : ∀ row : ListedTable, row.kind = some [] → row.isWanted entries = false := by
    intro row hrow
    unfold ListedTable.isWanted
    rw [hrow, Option.all_some, List.any_eq_false]
    intro entry _ hname
    have hlength := ((strcaseeq_iff _ _).1 hname).1
    exact entry.name.ne_nil (List.eq_nil_of_length_eq_zero hlength)
  unfold ListsTypes
  rw [texts_tables, map_filter_eq_iff]
  · simp only [hkept]
    constructor
    · intro h
      cases hends : endsQuoted entries with
      | false => exact .inl rfl
      | true =>
        right
        intro row hrow htype
        have hkind := kind_eq_some_nil_iff.2 htype
        have := h row hrow (by rw [hends, hkind]; simp)
        rw [hempty row hkind] at this
        cases this
    · rintro (hends | hnone) row hrow hkeep
      · rwa [hends, Bool.false_and, Bool.or_false] at hkeep
      · rw [Bool.or_eq_true] at hkeep
        apply hkeep.resolve_right
        intro h
        rw [Bool.and_eq_true, decide_eq_true_eq] at h
        exact hnone row hrow (kind_eq_some_nil_iff.1 h.2)
  · intro row hrow
    rw [hkept, hrow, Bool.true_or]

/-! ## The calls -/

/-- A call of `SQLTables` succeeds, and the result set it installs holds just the wanted rows. -/
def InstallsTypes (entries : List TypeEntry) (listed : ResultSet)
    (p : Call (Except Diag Unit × Stmt × Dbc)) (t : Trace) (d : Dbc) : Prop :=
  ∃ stmt set, Runs p t (.ok (), stmt, d) ∧ stmt.synth = some set ∧ ListsTypes entries listed set

section

variable {catalogName schemaName tableName tableType : CatalogArg} {entries : List TypeEntry}
  {stmt : Stmt} {dbc d : Dbc} {t : Trace} {listed : ResultSet}

/-- The listing query of a call. -/
def listingQuery (catalogName schemaName tableName : CatalogArg) : Bytes :=
  tablesSql (argToString catalogName) (argToString schemaName) (argToString tableName)

theorem installsTypes_iff_listsTypes
    (htypes : argToString tableType = some (typeListText entries))
    (hform : tablesForm (argToString catalogName) (argToString schemaName) (argToString tableName)
      (argToString tableType) = .listing)
    (hquery : Runs (runCatalogQuery (listingQuery catalogName schemaName tableName) dbc) t
      (.ok listed, d)) :
    InstallsTypes entries listed (sqlTables catalogName schemaName tableName tableType stmt dbc) t d ↔
      ListsTypes entries listed (tablesShape ((List.range listed.rowCount.toNat).filterMap
        (tableRow (some (typeListText entries)) listed))) := by
  have hruns : Runs (sqlTables catalogName schemaName tableName tableType stmt dbc) t
      (.ok (), installSynth stmt (tablesShape ((List.range listed.rowCount.toNat).filterMap
        (tableRow (some (typeListText entries)) listed))), d) := by
    unfold sqlTables
    dsimp only
    rw [hform, htypes]
    exact runs_catalogResult_of_query hquery
  constructor
  · rintro ⟨stmt', set, hruns', hset, hlists⟩
    obtain rfl := (Prod.mk.inj (Prod.mk.inj (hruns.unique hruns')).2).1
    obtain rfl := Option.some.inj hset
    exact hlists
  · exact fun hlists => ⟨_, _, hruns, rfl, hlists⟩

/-- Under a list of type names `SQLTables` shows just the rows of the answer that are of one of the
names or have no type, each once and in the answer's order, exactly if the last name of the list is
bare or no row of the answer has the empty type. -/
theorem sqlTables_lists_iff (hne : entries ≠ [])
    (htypes : argToString tableType = some (typeListText entries))
    (hform : tablesForm (argToString catalogName) (argToString schemaName) (argToString tableName)
      (argToString tableType) = .listing)
    (hquery : Runs (runCatalogQuery (listingQuery catalogName schemaName tableName) dbc) t
      (.ok listed, d)) :
    InstallsTypes entries listed (sqlTables catalogName schemaName tableName tableType stmt dbc) t d ↔
      endsQuoted entries = false ∨ ∀ row ∈ listedTables listed, row.type ≠ some [] :=
  (installsTypes_iff_listsTypes htypes hform hquery).trans (listsTypes_tables_iff hne listed)

end

/-! ## Two listings -/

/-- A name that stands in quotes, with nothing around it. -/
def quotedEntry (name : TypeName) : TypeEntry := ⟨name, true, 0, 0, 0, 0⟩

def tableTypeName : TypeName :=
  ⟨lit "TABLE", by decide, by decide, forall_mem_of_all (by decide), by decide, by decide⟩

/-- A query may be answered with a table of any type. -/
theorem exists_listed (query : Bytes) (dbc : Dbc) {type : Bytes} (htype : 0 ∉ type) :
    ∃ t d listed, Runs (runCatalogQuery query dbc) t (.ok listed, d) ∧
      listedTables listed = [⟨some (lit "DEMO"), some (lit "PUBLIC"), some (lit "T"), some type⟩] := by
  let row := [some (lit "DEMO"), some (lit "PUBLIC"), some (lit "T"), some type]
  have hzero : ∀ text, some text ∈ row → 0 ∉ text := by
    intro text htext
    simp only [row, List.mem_cons, List.not_mem_nil, or_false, Option.some.injEq] at htext
    obtain rfl | rfl | rfl | rfl := htext
    · decide
    · decide
    · decide
    · exact htype
  obtain ⟨listed, hmessage, hsets, hcount, hcell⟩ :=
    @decode_rowAnswer tablesNames (by decide) row rfl hzero
  obtain ⟨reply, hreply⟩ := exists_reply_row tablesNames row
  obtain ⟨t, d, hquery, -⟩ := @exists_runCatalogQuery query dbc reply _ listed hreply hmessage hsets
  refine ⟨t, d, listed, hquery, ?_⟩
  have hone : List.range (Int.toNat 1) = [0] := rfl
  unfold listedTables listedTable
  rw [hcount, hone, List.map_singleton]
  dsimp only
  rw [@hcell "table_catalog" 0 (by decide +kernel), @hcell "table_schema" 1 (by decide +kernel),
    @hcell "table_name" 2 (by decide +kernel), @hcell "table_type" 3 (by decide +kernel)]
  rfl

/-- A view is not shown under `'TABLE'`. -/
theorem sqlTables_lists_view :
    ∃ t d listed, (listedTables listed).map ListedTable.type = [some (lit "VIEW")] ∧
      InstallsTypes [quotedEntry tableTypeName] listed
        (sqlTables ⟨none, sqlNts⟩ ⟨none, sqlNts⟩ ⟨none, sqlNts⟩ ⟨some (lit "'TABLE'"), sqlNts⟩ freshStmt
          allocDbc) t d := by
  obtain ⟨t, d, listed, hquery, hrows⟩ :=
    exists_listed (listingQuery ⟨none, sqlNts⟩ ⟨none, sqlNts⟩ ⟨none, sqlNts⟩) allocDbc
      (by decide : 0 ∉ lit "VIEW")
  refine ⟨t, d, listed, by rw [hrows]; rfl, ?_⟩
  apply (sqlTables_lists_iff (by decide) (by decide) (by decide) hquery).2
  rw [hrows]
  right
  intro row hrow
  rw [List.mem_singleton.1 hrow]
  decide

/-- A row of the empty type is. -/
theorem not_sqlTables_lists_empty :
    ∃ t d listed, Runs (runCatalogQuery
        (listingQuery ⟨none, sqlNts⟩ ⟨none, sqlNts⟩ ⟨none, sqlNts⟩) allocDbc) t (.ok listed, d) ∧
      (listedTables listed).map ListedTable.type = [some []] ∧
      argToString ⟨some (lit "'TABLE'"), sqlNts⟩ = some (typeListText [quotedEntry tableTypeName]) ∧
      ¬InstallsTypes [quotedEntry tableTypeName] listed
        (sqlTables ⟨none, sqlNts⟩ ⟨none, sqlNts⟩ ⟨none, sqlNts⟩ ⟨some (lit "'TABLE'"), sqlNts⟩ freshStmt
          allocDbc) t d := by
  obtain ⟨t, d, listed, hquery, hrows⟩ :=
    exists_listed (listingQuery ⟨none, sqlNts⟩ ⟨none, sqlNts⟩ ⟨none, sqlNts⟩) allocDbc
      (by decide : 0 ∉ ([] : Bytes))
  refine ⟨t, d, listed, hquery, by rw [hrows]; rfl, by decide, fun h => ?_⟩
  have hlists := (installsTypes_iff_listsTypes (by decide) (by decide) hquery).1 h
  rw [listsTypes_tables_iff (by decide), hrows] at hlists
  rcases hlists with hends | hnone
  · exact absurd hends (by decide)
  · exact hnone _ List.mem_cons_self rfl

end FrostlakeOdbc
