import FrostlakeOdbc.CatalogProof
import FrostlakeOdbc.RequestProof
import FrostlakeOdbc.ResponseProof

/-!
# Which catalog a listing is of

The query of `SQLTables` and of `SQLColumns` reads the information schema of the catalog that the
argument names if it has no `%` and no `_`, and else that of the current database
(`listedDatabase_tablesSql`). The rows are those of the answer. So a listing is of what was asked for
exactly if that database is (`listsSelected_iff`).

The driver takes a name with an underscore for a search pattern, puts no catalog into the query, and
then shows the objects of the current database under that name (`not_listsSelected_my_db`).
-/

namespace FrostlakeOdbc

open CString Exchange Client Scan JsonText

/-! ## What a query reads -/

def isInformationSchema (seg : Bytes) : Bool := strcaseeq seg (lit "information_schema")

/-- The database whose information schema a query reads: the one that is named in front of it, and
else the session's current one. -/
def listedDatabase (current sql : Bytes) : Bytes :=
  match ((segments flSqlSkip sql).takeWhile (!isInformationSchema ·)).reverse with
  | dot :: name :: _ => if dot = lit "." then denoted name else current
  | _ => current

theorem ident_of_isIdentifier {name : Bytes} (h : IsIdentifier name) : ident name = name := by
  obtain ⟨heq, -⟩ | ⟨body, heq, -, rfl | ⟨hbare, hquoted, -⟩⟩ := ident_cases name
  · exact heq
  · exact heq
  · unfold IsIdentifier at h
    rw [hbare, hquoted] at h
    simp at h

theorem denoted_ident (name : Bytes) : denoted (ident name) = denoted name := by
  have htwice := trackedName_ident (ident name)
  rw [ident_of_isIdentifier (isIdentifier_ident name), trackedName_ident] at htwice
  exact (Option.some.inj htwice).symm

theorem mem_ident {name : Bytes} {c : UInt8} (hc : c ∈ ident name) (hne : c ≠ ch '"') : c ∈ name := by
  obtain ⟨heq, -⟩ | ⟨body, heq, -, hname⟩ := ident_cases name
  · rwa [heq] at hc
  · have hbody : c ∈ body := by
      rw [heq, inQuotes, List.mem_cons, List.mem_append, List.mem_singleton] at hc
      exact (hc.resolve_left hne).resolve_right hne
    obtain rfl | ⟨-, -, rfl⟩ := hname
    · exact List.mem_cons_of_mem _ (List.mem_append_left _ hbody)
    · obtain ⟨d, hd, hmem⟩ := List.mem_flatMap.1 hbody
      unfold doubleQuote at hmem
      split at hmem
      · next hquote =>
        rw [hquote, List.mem_cons, List.mem_singleton, or_self] at hmem
        exact absurd hmem hne
      · rwa [List.mem_singleton.1 hmem]

/-- The name of the information schema has an underscore, so no catalog in front of it is spelled
like it. -/
theorem isInformationSchema_qualifier (catalog : Option Bytes) :
    ∀ seg ∈ qualifier catalog, isInformationSchema seg = false := by
  unfold qualifier
  split
  · next hnames =>
    intro seg hseg
    rw [List.mem_cons, List.mem_singleton] at hseg
    obtain rfl | rfl := hseg
    · cases hsame : isInformationSchema (ident (catalog.getD [])) with
      | false => rfl
      | true =>
        exfalso
        have hmap : (ident (catalog.getD [])).map toUpper = (lit "information_schema").map toUpper :=
          of_decide_eq_true hsame
        have hmem : ch '_' ∈ (ident (catalog.getD [])).map toUpper := by
          rw [hmap]
          decide
        obtain ⟨c, hc, hupper⟩ := List.mem_map.1 hmem
        rw [eq_of_toUpper_eq (by decide) hupper] at hc
        unfold namesCatalog at hnames
        simp only [Bool.and_eq_true, decide_eq_true_eq] at hnames
        exact hnames.2 (mem_ident hc (by decide))
    · decide
  · intro seg hseg
    cases hseg

/-- What stands in front of the information schema in a query is its qualifier, and a blank before
that. -/
theorem listedDatabase_listingSql {front view tail : String} {catalog : Option Bytes}
    {args : List (String × Option Bytes)} (h : PlainListing front view tail args)
    (hnone : ∀ seg ∈ segments flSqlSkip (lit front), isInformationSchema seg = false)
    (hlast : (segments flSqlSkip (lit front)).getLast? = some [ch ' '])
    (hschema : (segments flSqlSkip (lit "information_schema." ++ lit view ++
      lit " WHERE 1=1")).head?.any isInformationSchema = true) (current : Bytes) :
    listedDatabase current (listingSql front view tail catalog args) =
      if namesCatalog catalog then denoted (catalog.getD []) else current := by
  obtain ⟨restrictions, -, hsegments⟩ := segments_listingSql h catalog
  generalize segments flSqlSkip (lit front) = segs at hsegments hnone hlast
  obtain ⟨before, rfl⟩ : ∃ before, segs = before ++ [[ch ' ']] :=
    ⟨segs.dropLast, (List.dropLast_append_getLast? _ hlast).symm⟩
  have htake : (segments flSqlSkip (listingSql front view tail catalog args)).takeWhile
      (!isInformationSchema ·) = before ++ [[ch ' ']] ++ qualifier catalog := by
    have hall : ∀ seg ∈ before ++ [[ch ' ']] ++ qualifier catalog,
        (!isInformationSchema seg) = true := by
      intro seg hseg
      rw [Bool.not_eq_true']
      rcases List.mem_append.1 hseg with hseg | hseg
      · exact hnone seg hseg
      · exact isInformationSchema_qualifier catalog seg hseg
    rw [hsegments, List.append_assoc, List.append_assoc, List.takeWhile_append_of_pos hall]
    cases hmiddle : segments flSqlSkip (lit "information_schema." ++ lit view ++ lit " WHERE 1=1") with
    | nil =>
      rw [hmiddle] at hschema
      cases hschema
    | cons seg middle =>
      rw [hmiddle, List.head?_cons, Option.any_some] at hschema
      rw [List.cons_append, List.takeWhile_cons, hschema]
      exact List.append_nil _
  unfold listedDatabase
  rw [htake]
  unfold qualifier
  cases namesCatalog catalog with
  | true =>
    rw [if_pos rfl, if_pos rfl, List.reverse_append]
    exact denoted_ident _
  | false =>
    rw [if_neg Bool.false_ne_true, if_neg Bool.false_ne_true, List.append_nil, List.reverse_append]
    cases before.reverse with
    | nil => rfl
    | cons name before => exact if_neg (by decide)

/-- The query of `SQLTables` reads the catalog that is named, or that of the current database. -/
theorem listedDatabase_tablesSql (current : Bytes) (catalog schema table : Option Bytes) :
    listedDatabase current (tablesSql catalog schema table) =
      if namesCatalog catalog then denoted (catalog.getD []) else current := by
  rw [tablesSql_eq]
  exact listedDatabase_listingSql (plainListing_tables schema table) (by decide) (by decide)
    (by decide) current

/-- So does that of `SQLColumns`. -/
theorem listedDatabase_columnsSql (current : Bytes) (catalog schema table column : Option Bytes) :
    listedDatabase current (columnsSql catalog schema table column) =
      if namesCatalog catalog then denoted (catalog.getD []) else current := by
  rw [columnsSql_eq]
  exact listedDatabase_listingSql (plainListing_columns schema table column) (by decide +kernel)
    (by decide +kernel) (by decide) current

/-! ## The rows -/

/-- Every row of the answer is of an object of the database. -/
def OnlyFrom (database : Bytes) (set : ResultSet) : Prop :=
  ∀ r : ℕ, (r : ℤ) < set.rowCount → set.cellText r (columnIndex set "table_catalog") = some database

/-- The engine lists in an information schema only the objects of its database, and in one without a
database in front only those of the current database. -/
def ListsOwn (current : Bytes) (t : Trace) : Prop :=
  ∀ e ∈ t, ∀ p, e.1 = .post p → e.1.isStatement = true →
    ∀ response d, readReply p.dbc e.2 = (.answered response, d) →
      ∀ set ∈ response.sets.head?, OnlyFrom (listedDatabase current p.sql) set

/-- Every row has a `TABLE_CAT` that `P` holds of. -/
def Selects (P : Bytes → Prop) (set : ResultSet) : Prop :=
  ∀ r : ℕ, (r : ℤ) < set.rowCount →
    ∃ name, set.cellText r (columnIndex set "TABLE_CAT") = some name ∧ P name

/-- Whatever the engine answers, a call that succeeds shows only rows with a `TABLE_CAT` that `P`
holds of. -/
def ListsSelected (P : Bytes → Prop) (current : Bytes) (p : Call (Except Diag Unit × Stmt × Dbc)) :
    Prop :=
  ∀ t stmt d, Runs p t (.ok (), stmt, d) → ListsOwn current t →
    ∀ set ∈ stmt.synth, Selects P set

/-- The first cell of a row, as `cell_text` reads it. -/
def firstText (row : List Cell) : Option Bytes :=
  row.head?.bind fun cell => if cell.isNull then none else cell.text

theorem firstText_synthOptional (text : Option Bytes) (row : List Cell) :
    firstText (synthOptional text :: row) = text := by
  cases text <;> rfl

/-- What `cell_text` reads of a cell. -/
def Cell.shown (cell : Cell) : Option Bytes := if cell.isNull then none else cell.text

theorem shown_synthOptional (text : Option Bytes) : (synthOptional text).shown = text := by
  cases text <;> rfl

/-- A result set of the driver's own is read by its rows. -/
theorem cellText_flSynthNew {columns : List Column} {rows : List (List Cell)}
    (hrows : ∀ row ∈ rows, row.length = columns.length) (r : ℕ) {c : ℕ} (hc : c < columns.length) :
    (flSynthNew columns rows).cellText r (some c) =
      rows[r]?.bind fun row => row[c]?.bind Cell.shown := by
  have hat := getElem?_flatMap (f := id) (k := columns.length) hrows r hc
  rw [List.flatMap_id] at hat
  have hplace : ((r : ℤ) * (columns.length : ℤ) + (c : ℤ)).toNat = r * columns.length + c := by
    rw [← Int.natCast_mul, ← Int.natCast_add, Int.toNat_natCast]
  have hcount : ¬(flSynthNew columns rows).columnCount ≤ (c : ℤ) := by
    show ¬(columns.length : ℤ) ≤ (c : ℤ)
    omega
  unfold ResultSet.cellText ResultSet.cellAt
  dsimp only
  rw [if_neg hcount]
  show (rows.flatten[((r : ℤ) * (columns.length : ℤ) + (c : ℤ)).toNat]?).bind _ = _
  rw [hplace, hat]
  cases rows[r]? <;> rfl

/-- A result set of the driver's own has its catalogs in the first column. -/
theorem selects_flSynthNew {P : Bytes → Prop} {columns : List Column} {rows : List (List Cell)}
    (hindex : columnIndex (flSynthNew columns rows) "TABLE_CAT" = some 0)
    (hcolumns : 0 < columns.length) (hrows : ∀ row ∈ rows, row.length = columns.length) :
    Selects P (flSynthNew columns rows) ↔ ∀ row ∈ rows, ∃ name, firstText row = some name ∧ P name := by
  have hcell : ∀ r : ℕ, (flSynthNew columns rows).cellText r (some 0) = rows[r]?.bind firstText := by
    intro r
    rw [cellText_flSynthNew hrows r hcolumns]
    cases rows[r]? with
    | none => rfl
    | some row => cases row <;> rfl
  unfold Selects
  rw [hindex]
  constructor
  · intro h row hrow
    obtain ⟨r, hr, rfl⟩ := List.mem_iff_getElem.1 hrow
    have hname := h r (Int.ofNat_lt.2 hr)
    rw [hcell, List.getElem?_eq_getElem hr] at hname
    exact hname
  · intro h r hr
    have hlt : r < rows.length := Int.ofNat_lt.1 hr
    rw [hcell, List.getElem?_eq_getElem hlt]
    exact h _ (List.getElem_mem hlt)

/-- The rows of `SQLTables` are of the catalogs that the answer names. -/
theorem firstText_tableRow {types : Option Bytes} {listed : ResultSet} {r : ℕ} {row : List Cell}
    (h : tableRow types listed r = some row) :
    row.length = 5 ∧ firstText row = listed.cellText r (columnIndex listed "table_catalog") := by
  unfold tableRow at h
  dsimp only at h
  split at h
  · obtain rfl := Option.some.inj h
    exact ⟨rfl, firstText_synthOptional _ _⟩
  · cases h

theorem selects_tables {P : Bytes → Prop} {listed : ResultSet} (types : Option Bytes) :
    Selects P (tablesShape ((List.range listed.rowCount.toNat).filterMap (tableRow types listed))) ↔
      ∀ r : ℕ, (r : ℤ) < listed.rowCount → (tableRow types listed r).isSome = true →
        ∃ name, listed.cellText r (columnIndex listed "table_catalog") = some name ∧ P name := by
  unfold tablesShape
  rw [selects_flSynthNew rfl (by decide)]
  · constructor
    · intro h r hr hrow
      obtain ⟨row, hrow⟩ := Option.isSome_iff_exists.1 hrow
      have hname := h row (List.mem_filterMap.2 ⟨r, List.mem_range.2 (by omega), hrow⟩)
      rwa [(firstText_tableRow hrow).2] at hname
    · intro h row hmem
      obtain ⟨r, hr, hrow⟩ := List.mem_filterMap.1 hmem
      rw [(firstText_tableRow hrow).2]
      exact h r (by have := List.mem_range.1 hr; omega) (Option.isSome_iff_exists.2 ⟨row, hrow⟩)
  · intro row hmem
    obtain ⟨r, -, hrow⟩ := List.mem_filterMap.1 hmem
    exact (firstText_tableRow hrow).1

theorem selects_columns {P : Bytes → Prop} {listed : ResultSet} :
    Selects P (flSynthNew columnsColumns ((List.range listed.rowCount.toNat).map (columnRow listed))) ↔
      ∀ r : ℕ, (r : ℤ) < listed.rowCount →
        ∃ name, listed.cellText r (columnIndex listed "table_catalog") = some name ∧ P name := by
  have hfirst : ∀ r, firstText (columnRow listed r) =
      listed.cellText r (columnIndex listed "table_catalog") := fun r => firstText_synthOptional _ _
  rw [selects_flSynthNew rfl (by decide)]
  · constructor
    · intro h r hr
      rw [← hfirst]
      exact h _ (List.mem_map_of_mem (List.mem_range.2 (by omega)))
    · intro h row hmem
      obtain ⟨r, hr, rfl⟩ := List.mem_map.1 hmem
      rw [hfirst]
      exact h r (by have := List.mem_range.1 hr; omega)
  · intro row hmem
    obtain ⟨r, -, rfl⟩ := List.mem_map.1 hmem
    rfl

/-! ## The runs -/

section

variable {P : Bytes → Prop} {current query : Bytes} {synth : ResultSet → ResultSet} {stmt : Stmt}
  {dbc : Dbc}

theorem listsSelected_catalogResult
    (h : ∀ listed, OnlyFrom (listedDatabase current query) listed → Selects P (synth listed)) :
    ListsSelected P current (catalogResult query synth stmt dbc) := by
  intro t stmt' d hruns hown
  obtain ⟨t₁, t₂, ⟨listed, d₁⟩, rfl, hquery, hend⟩ := runs_bind_iff.1 hruns
  obtain ⟨t₁, t₃, ⟨result, d₂⟩, rfl, hexec, hmiddle⟩ := runs_bind_iff.1 hquery
  cases listed with
  | error diag => cases (runs_pure_iff.1 hend).2
  | ok listed =>
    obtain ⟨-, heq⟩ := runs_pure_iff.1 hend
    cases result with
    | error e => cases (runs_pure_iff.1 hmiddle).2
    | ok response =>
      dsimp only at hmiddle
      split at hmiddle
      · cases (runs_pure_iff.1 hmiddle).2
      · next hmessage =>
        split at hmiddle
        · next set sets hsets =>
          obtain ⟨-, hlisted⟩ := runs_pure_iff.1 hmiddle
          obtain rfl : listed = set := Except.ok.inj (Prod.mk.inj hlisted).1
          obtain ⟨e, he, p, d', hp, hstmt, rfl, hread⟩ := answeredIn_execute hexec hmessage
          have honly := hown e (List.mem_append_left _ (List.mem_append_left _ he)) p hp hstmt
            response d' hread listed (by rw [hsets]; rfl)
          rw [(Prod.mk.inj (Prod.mk.inj heq).2).1]
          intro set hset
          cases hset
          exact h listed honly
        · cases (runs_pure_iff.1 hmiddle).2

/-- A query may be answered with any one result set that the engine may give. -/
theorem exists_runCatalogQuery {reply : HttpReply} {response : Response} {listed : ResultSet}
    (hreply : ∀ d, readReply d reply = (.answered response, d))
    (hmessage : response.errorMessage = none) (hsets : response.sets = [listed]) :
    ∃ t d, Runs (runCatalogQuery query dbc) t (.ok listed, d) ∧
      ∀ e ∈ t, ∀ p, e.1 = .post p → e.1.isStatement = true → p.sql = query ∧ e.2 = reply := by
  obtain ⟨t, d, d', hexec, hscope⟩ :=
    runs_execute_answered dbc query (-1) { tracked := true, recover := true } hreply
  refine ⟨t ++ [sent { tracked := true, recover := true } query (-1) d reply], d', ?_, ?_⟩
  · refine runs_bind_iff.2 ⟨_, [], _, (List.append_nil _).symm, hexec, ?_⟩
    dsimp only
    rw [hmessage]
    dsimp only
    rw [hsets]
    exact .done _
  · intro e he p hp hstmt
    rcases List.mem_append.1 he with he | he
    · rw [(hscope e he).2] at hstmt
      cases hstmt
    · obtain rfl := List.mem_singleton.1 he
      cases hp
      exact ⟨rfl, rfl⟩

/-- The catalog function then puts it together anew. -/
theorem runs_catalogResult_of_query {t : Trace} {d : Dbc} {listed : ResultSet}
    (h : Runs (runCatalogQuery query dbc) t (.ok listed, d)) :
    Runs (catalogResult query synth stmt dbc) t (.ok (), installSynth stmt (synth listed), d) :=
  runs_bind_iff.2 ⟨t, [], _, (List.append_nil t).symm, h, .done _⟩

/-- A listing of any one result set that the engine may give. -/
theorem exists_listing {reply : HttpReply} {response : Response} {listed : ResultSet}
    (hreply : ∀ d, readReply d reply = (.answered response, d))
    (hmessage : response.errorMessage = none) (hsets : response.sets = [listed])
    (honly : OnlyFrom (listedDatabase current query) listed) :
    ∃ t stmt' d, Runs (catalogResult query synth stmt dbc) t (.ok (), stmt', d) ∧
      ListsOwn current t ∧ stmt'.synth = some (synth listed) := by
  obtain ⟨t, d, hquery, hsent⟩ := 
    @exists_runCatalogQuery query dbc _ _ _ hreply hmessage hsets
  refine ⟨t, _, d, runs_catalogResult_of_query hquery, ?_, rfl⟩
  intro e he p hp hstmt response' d' hread set hset
  obtain ⟨hsql, hanswer⟩ := hsent e he p hp hstmt
  rw [hanswer, hreply] at hread
  obtain rfl : response = response' := Outcome.answered.inj (Prod.mk.inj hread).1
  rw [hsets] at hset
  cases hset
  rw [hsql]
  exact honly

end

/-! ## An answer with one row -/

/-- The columns of the two queries. -/
def tablesNames : List String := ["table_catalog", "table_schema", "table_name", "table_type"]

def columnsNames : List String :=
  ["table_catalog", "table_schema", "table_name", "column_name", "data_type",
    "character_maximum_length", "numeric_precision", "numeric_scale", "is_nullable",
    "ordinal_position", "column_default"]

/-- The value of a cell with a text, or of NULL. -/
def cellValue : Option Bytes → Value
  | some text => .string text
  | none => .null

/-- A result set with one row. -/
def rowRecord (names : List String) (row : List (Option Bytes)) : Value :=
  .object [(lit "columns", .array (names.map fun name => .object
      [(lit "name", .string (lit name)), (lit "dataType", .string (lit "VARCHAR"))])),
    (lit "rows", .array [.array (row.map cellValue)])]

def rowAnswer (names : List String) (row : List (Option Bytes)) : Value :=
  .object [(lit "success", .bool true), (lit "resultSets", .array [rowRecord names row])]

/-- A result set with one row, which has the catalog and is NULL elsewhere. -/
def catalogRecord (names : List String) (database : Bytes) : Value :=
  .object [(lit "columns", .array (names.map fun name => .object
      [(lit "name", .string (lit name)), (lit "dataType", .string (lit "VARCHAR"))])),
    (lit "rows", .array [.array (.string database :: List.replicate (names.length - 1) .null)])]

def catalogAnswer (names : List String) (database : Bytes) : Value :=
  .object [(lit "success", .bool true), (lit "resultSets", .array [catalogRecord names database])]

theorem catalogAnswer_eq (names : List String) (database : Bytes) :
    catalogAnswer names database =
      rowAnswer names (some database :: List.replicate (names.length - 1) none) := by
  unfold catalogAnswer catalogRecord rowAnswer rowRecord
  rw [List.map_cons, List.map_replicate]
  rfl

theorem exists_escaped (text : Bytes) : ∃ body, Escaped text body := ⟨_, rfl⟩

theorem exists_spells_string (n : ℕ) (text : Bytes) : ∃ s, Spells Escaped n (.string text) s :=
  ⟨_, spells_string_iff.2 ⟨_, rfl, rfl⟩⟩

theorem exists_spells_cellValue (n : ℕ) (cell : Option Bytes) :
    ∃ s, Spells Escaped n (cellValue cell) s := by
  cases cell with
  | some text => exact exists_spells_string n text
  | none => cases n <;> exact ⟨lit "null", rfl⟩

theorem exists_spells_rowAnswer (names : List String) (row : List (Option Bytes)) (n : ℕ) :
    ∃ s, Spells Escaped (n + 5) (rowAnswer names row) s := by
  have hpair : ∀ {n : ℕ} {k l : Bytes} {v w : Value}, (∃ s, Spells Escaped n v s) →
      (∃ s, Spells Escaped n w s) → ∃ s, Spells Escaped (n + 1) (.object [(k, v), (l, w)]) s := by
    intro n k l v w hv hw
    apply exists_spells_object
    simp only [List.forall_mem_cons]
    exact ⟨⟨exists_escaped k, hv⟩, ⟨exists_escaped l, hw⟩, fun _ h => absurd h List.not_mem_nil⟩
  have hcolumns : ∃ s, Spells Escaped (n + 2) (.array (names.map fun name => .object
      [(lit "name", .string (lit name)), (lit "dataType", .string (lit "VARCHAR"))])) s := by
    apply exists_spells_array
    intro v hv
    obtain ⟨name, -, rfl⟩ := List.mem_map.1 hv
    exact hpair (exists_spells_string n _) (exists_spells_string n _)
  have hrow : ∃ s, Spells Escaped (n + 1) (.array (row.map cellValue)) s := by
    apply exists_spells_array
    intro v hv
    obtain ⟨cell, -, rfl⟩ := List.mem_map.1 hv
    exact exists_spells_cellValue n cell
  have hrows := exists_spells_array (List.forall_mem_singleton.2 hrow)
  have hset : ∃ s, Spells Escaped (n + 3) (rowRecord names row) s := hpair hcolumns hrows
  exact hpair ⟨lit "true", spells_bool_iff.2 rfl⟩
    (exists_spells_array (List.forall_mem_singleton.2 hset))

/-- The engine can give such an answer, and it is taken in. -/
theorem exists_reply_row (names : List String) (row : List (Option Bytes)) :
    ∃ reply, ∀ d, readReply d reply =
      (.answered (decodeResponse (rowAnswer names row)), d) := by
  obtain ⟨body, hbody⟩ := exists_spells_rowAnswer names row 59
  have hzero : 0 ∉ body := by
    refine hbody.zero_notMem fun text body hescaped h0 => ?_
    rw [hescaped] at h0
    obtain ⟨c, -, hc⟩ := List.mem_flatMap.1 h0
    revert hc
    apply forall_byte (P := fun c => 0 ∉ escapeByte c)
    decide +kernel
  have hparse : flJsonParse (cstr body) = some (rowAnswer names row) := by
    rw [cstr_eq_self hzero]
    exact flJsonParse_spells readsStrings_escaped (.self hbody)
  refine ⟨.answered 200 body, fun d => ?_⟩
  unfold readReply
  dsimp only
  rw [hparse]
  dsimp only
  rw [refusesSession, decide_eq_false (by decide : ¬(200 : ℤ) = 404), Bool.and_false]
  rfl

theorem exists_reply (names : List String) (database : Bytes) :
    ∃ reply, ∀ d, readReply d reply =
      (.answered (decodeResponse (catalogAnswer names database)), d) := by
  rw [catalogAnswer_eq]
  exact exists_reply_row names _

/-- The column that is read for a name. -/
def varcharColumn (name : String) : Column :=
  decodeColumn (some (.object
    [(lit "name", .string (lit name)), (lit "dataType", .string (lit "VARCHAR"))]))

theorem shown_decodeCell (sqlType : SqlType) (cell : Option Bytes) :
    (decodeCell sqlType (some (cellValue cell))).shown = cell.map cstr := by
  cases cell <;> rfl

theorem decodeSet_rowRecord {names : List String} (hlt : names.length < 2 ^ 31)
    {row : List (Option Bytes)} (hrow : row.length = names.length) :
    ∃ cells, decodeSet (some (rowRecord names row)) =
      { columns := names.map varcharColumn
        columnCount := names.length
        cells := cells
        rowCount := 1 } ∧
      ∀ i < names.length, cells[i]?.bind Cell.shown = row[i]?.bind (Option.map cstr) := by
  have hrecord : ∀ v w : Value,
      flJsonGet (some (.object [(lit "columns", v), (lit "rows", w)])) (lit "columns") = some v ∧
      flJsonGet (some (.object [(lit "columns", v), (lit "rows", w)])) (lit "rows") = some w := by
    intro v w
    have hrecord : Record [(lit "columns", v), (lit "rows", w)] :=
      record_pair (by decide) (by decide) (by decide)
    exact ⟨hrecord.get List.mem_cons_self, hrecord.get (List.mem_cons_of_mem _ List.mem_cons_self)⟩
  let value := Value.array (row.map cellValue)
  refine ⟨(names.map varcharColumn).mapIdx fun i column =>
    decodeCell column.sqlType (flJsonAt (some value) i), ?_, fun i hi => ?_⟩
  · have hlen : (names.map fun name => Value.object
        [(lit "name", .string (lit name)), (lit "dataType", .string (lit "VARCHAR"))]).length <
        2 ^ 31 := by
      rwa [List.length_map]
    have hcount : childCount (some (.array [value])) = 1 := childCount_array (by
      rw [List.length_singleton]
      decide)
    have hcells : ∀ columns, decodeRows (some (.array [value])) columns =
        columns.mapIdx fun i column => decodeCell column.sqlType (flJsonAt (some value) i) := by
      intro columns
      rw [decodeRows, hcount]
      exact List.append_nil _
    rw [decodeSet, rowRecord, (hrecord _ _).1, (hrecord _ _).2, decodeColumns_array hlen,
      childCount_array hlen, List.length_map, List.map_map, hcells, hcount]
    rfl
  · have hat : flJsonAt (some value) i = some (cellValue row[i]) := by
      show (row.map cellValue)[i]? = _
      rw [List.getElem?_map, List.getElem?_eq_getElem (hrow ▸ hi)]
      rfl
    rw [List.getElem?_mapIdx, List.getElem?_map, List.getElem?_eq_getElem hi,
      List.getElem?_eq_getElem (hrow ▸ hi), hat]
    exact shown_decodeCell _ _

/-- What is read of it: the columns are those of the names, and the row is the row. -/
theorem decode_rowAnswer {names : List String} (hlt : names.length < 2 ^ 31)
    {row : List (Option Bytes)} (hrow : row.length = names.length)
    (hzero : ∀ text, some text ∈ row → 0 ∉ text) :
    ∃ listed, (decodeResponse (rowAnswer names row)).errorMessage = none ∧
      (decodeResponse (rowAnswer names row)).sets = [listed] ∧ listed.rowCount = 1 ∧
      ∀ {name : String} {i : ℕ}, ((names.map varcharColumn).findIdx? fun column =>
          strcaseeq column.name (lit name)) = some i →
        listed.cellText 0 (columnIndex listed name) = row[i]?.join := by
  obtain ⟨hmessage, hsets⟩ := decodeResponse_object
    (record_pair (w := .array [rowRecord names row]) (by decide) (by decide) (by decide))
    (List.mem_cons_self ..) (List.mem_cons_of_mem _ (List.mem_cons_self ..))
  have hone : toInt [rowRecord names row].length = 1 := by
    rw [List.length_singleton]
    decide
  obtain ⟨cells, hset, hcells⟩ := decodeSet_rowRecord hlt hrow
  rw [hone] at hsets
  refine ⟨_, hmessage, hsets, congrArg ResultSet.rowCount hset, ?_⟩
  intro name i hindex
  have hi : i < names.length := by
    have := (List.findIdx?_eq_some_iff_getElem.1 hindex).1
    rwa [List.length_map] at this
  have hplace : ((0 : ℕ) * (names.length : ℤ) + (i : ℤ)).toNat = i := by
    rw [Int.natCast_zero, Int.zero_mul, Int.zero_add, Int.toNat_natCast]
  show (decodeSet (some (rowRecord names row))).cellText 0
    (columnIndex (decodeSet (some (rowRecord names row))) name) = _
  rw [hset, columnIndex, hindex, ResultSet.cellText]
  dsimp only
  rw [if_neg (Int.not_le.2 (Int.ofNat_lt.2 hi)), ResultSet.cellAt]
  dsimp only
  rw [hplace]
  refine (hcells i hi).trans ?_
  rw [List.getElem?_eq_getElem (hrow ▸ hi)]
  show (row[i]).map cstr = row[i]
  cases hcell : row[i] with
  | none => rfl
  | some text => exact congrArg some (cstr_eq_self (hzero text (hcell ▸ List.getElem_mem _)))

theorem decode_catalogAnswer {names : List String} (hnames : names = tablesNames ∨ names = columnsNames)
    {database : Bytes} (hdatabase : 0 ∉ database) :
    ∃ listed, (decodeResponse (catalogAnswer names database)).errorMessage = none ∧
      (decodeResponse (catalogAnswer names database)).sets = [listed] ∧ listed.rowCount = 1 ∧
      listed.cellText 0 (columnIndex listed "table_catalog") = some database ∧
      (names = tablesNames → listed.cellText 0 (columnIndex listed "table_type") = none) := by
  have hlt : names.length < 2 ^ 31 := by
    obtain rfl | rfl := hnames <;> decide
  have hrow : (some database :: List.replicate (names.length - 1) none).length = names.length := by
    obtain rfl | rfl := hnames <;> rfl
  have hzero : ∀ text, some text ∈ some database :: List.replicate (names.length - 1) none →
      0 ∉ text := by
    intro text htext
    rcases List.mem_cons.1 htext with h | h
    · rwa [Option.some.inj h]
    · cases List.eq_of_mem_replicate h
  obtain ⟨listed, hmessage, hsets, hcount, hcell⟩ := decode_rowAnswer hlt hrow hzero
  rw [catalogAnswer_eq]
  refine ⟨listed, hmessage, hsets, hcount, ?_, ?_⟩
  · obtain rfl | rfl := hnames
    · exact @hcell _ 0 (by decide +kernel)
    · exact @hcell _ 0 (by decide +kernel)
  · rintro rfl
    exact @hcell _ 3 (by decide +kernel)

/-! ## What an argument selects -/

/-- `PatternMatches pattern name`: the name matches the search pattern. A percent sign stands for any
characters, an underscore for one, and a backslash in front of one of the three for it. -/
inductive PatternMatches : Bytes → Bytes → Prop where
  | nil : PatternMatches [] []
  | any {p t : Bytes} (s : Bytes) (h : PatternMatches p t) : PatternMatches (ch '%' :: p) (s ++ t)
  | one {p t : Bytes} (c : Char) (h : PatternMatches p t) :
      PatternMatches (ch '_' :: p) (String.utf8EncodeChar c ++ t)
  | escaped {c : UInt8} {p t : Bytes} (hc : c ∈ lit "%_\\") (h : PatternMatches p t) :
      PatternMatches (ch '\\' :: c :: p) (c :: t)
  | plain {c : UInt8} {p t : Bytes} (hany : c ≠ ch '%') (hone : c ≠ ch '_')
      (hescape : c = ch '\\' → ∀ d ∈ p.head?, d ∉ lit "%_\\") (h : PatternMatches p t) :
      PatternMatches (c :: p) (c :: t)

/-- The name matches the search pattern, upper and lower case apart. -/
def PatternSelects (pattern name : Bytes) : Prop :=
  PatternMatches (pattern.map toUpper) (name.map toUpper)

/-- A text with nothing in it that stands for any character matches a search pattern that is no
longer, and one that is as long only if no escape is in it. -/
theorem PatternMatches.length_le {p t : Bytes} (h : PatternMatches p t) (hany : ch '%' ∉ p)
    (hone : ch '_' ∉ p) : t.length ≤ p.length ∧ (t.length = p.length → ¬lit "\\\\" <:+: p) := by
  induction h with
  | nil => exact ⟨le_rfl, fun _ => by decide⟩
  | any s _ _ => exact absurd List.mem_cons_self hany
  | one c _ _ => exact absurd List.mem_cons_self hone
  | escaped hc _ ih =>
    obtain ⟨hle, -⟩ := ih (fun h => hany (List.mem_cons_of_mem _ (List.mem_cons_of_mem _ h)))
      (fun h => hone (List.mem_cons_of_mem _ (List.mem_cons_of_mem _ h)))
    simp only [List.length_cons]
    exact ⟨by omega, fun heq => by omega⟩
  | @plain c p t _ _ hescape _ ih =>
    obtain ⟨hle, hpair⟩ := ih (fun h => hany (List.mem_cons_of_mem _ h))
      (fun h => hone (List.mem_cons_of_mem _ h))
    simp only [List.length_cons]
    refine ⟨by omega, fun heq hinfix => ?_⟩
    rcases List.infix_cons_iff.1 hinfix with hprefix | hinfix
    · obtain ⟨rest, hrest⟩ := hprefix
      obtain ⟨rfl, rfl⟩ := List.cons.inj hrest
      exact hescape rfl _ rfl (by decide)
    · exact hpair (by omega) hinfix

/-- A name that is taken as its own search pattern. -/
theorem patternMatches_self_iff {p : Bytes} (hany : ch '%' ∉ p) (hone : ch '_' ∉ p) :
    PatternMatches p p ↔ ¬lit "\\\\" <:+: p := by
  refine ⟨fun h => (h.length_le hany hone).2 rfl, fun hpair => ?_⟩
  induction p with
  | nil => exact .nil
  | cons c p ih =>
    simp only [List.mem_cons, not_or] at hany hone
    refine .plain (Ne.symm hany.1) (Ne.symm hone.1) ?_
      (ih hany.2 hone.2 fun h => hpair (List.infix_cons h))
    rintro rfl d hd hmem
    obtain ⟨p, rfl⟩ : ∃ rest, p = d :: rest := List.head?_eq_some_iff.1 hd
    rw [show lit "%_\\" = [ch '%', ch '_', ch '\\'] from rfl] at hmem
    simp only [List.mem_cons, List.not_mem_nil, or_false] at hmem hany hone
    obtain rfl | rfl | rfl := hmem
    · exact hany.2 (.inl rfl)
    · exact hone.2 (.inl rfl)
    · exact hpair (List.prefix_append (lit "\\\\") p).isInfix

/-- A byte that is no letter stands in a text where it stands in the text in capitals. -/
theorem mem_map_toUpper {c : UInt8} (hc : isUpper c = false) (hcap : toUpper c = c) {p : Bytes} :
    c ∈ p.map toUpper ↔ c ∈ p := by
  constructor
  · intro hmem
    obtain ⟨d, hd, hupper⟩ := List.mem_map.1 hmem
    exact eq_of_toUpper_eq hc hupper ▸ hd
  · intro hmem
    exact hcap ▸ List.mem_map_of_mem hmem

theorem doubledBackslash_map_toUpper {p : Bytes} :
    lit "\\\\" <:+: p.map toUpper ↔ lit "\\\\" <:+: p := by
  have hpair : lit "\\\\" = List.replicate 2 (ch '\\') := rfl
  have hupper : (lit "\\\\").map toUpper = lit "\\\\" := by decide
  constructor
  · intro hinfix
    obtain ⟨l, hl, heq⟩ := List.infix_map_iff.1 hinfix
    rw [hpair] at heq
    have hself : ∀ c ∈ l, c = ch '\\' := by
      intro c hc
      have hmem : toUpper c ∈ l.map toUpper := List.mem_map_of_mem hc
      rw [← heq] at hmem
      exact eq_of_toUpper_eq (by decide) (List.eq_of_mem_replicate hmem)
    have hlen := congrArg List.length heq
    rw [List.length_replicate, List.length_map] at hlen
    rw [List.eq_replicate_of_mem hself, ← hlen] at hl
    exact hl
  · intro hinfix
    exact hupper ▸ hinfix.map toUpper

/-- A name that is taken as its own search pattern selects itself. -/
theorem patternSelects_self_iff {p : Bytes} (hany : ch '%' ∉ p) (hone : ch '_' ∉ p) :
    PatternSelects p p ↔ ¬lit "\\\\" <:+: p := by
  unfold PatternSelects
  rw [patternMatches_self_iff, doubledBackslash_map_toUpper]
  · rwa [mem_map_toUpper (by decide) (by decide)]
  · rwa [mem_map_toUpper (by decide) (by decide)]

theorem undoubleQuotes_subset : ∀ s : Bytes, undoubleQuotes s ⊆ s
  | [] => List.Subset.refl _
  | [_] => List.Subset.refl _
  | c :: d :: rest => by
      unfold undoubleQuotes
      split
      · exact List.Subset.trans (List.cons_subset_cons d (undoubleQuotes_subset rest))
          (List.subset_cons_self c _)
      · exact List.cons_subset_cons c (undoubleQuotes_subset (d :: rest))

/-- What a name denotes holds only bytes of the name, in upper case. -/
theorem notMem_denoted {c : UInt8} (hc : ∀ d, toUpper d = c → d = c) {name : Bytes} (h : c ∉ name) :
    c ∉ denoted name := by
  unfold denoted
  split
  · intro hmem
    obtain ⟨d, hd, hupper⟩ := List.mem_map.1 hmem
    exact h (hc d hupper ▸ hd)
  · split
    · intro hmem
      exact h (List.mem_of_mem_drop (List.dropLast_subset _ (undoubleQuotes_subset _ hmem)))
    · exact h

section

variable {P : Bytes → Prop} {current arg : Bytes} {catalogName schemaName tableName lastName : CatalogArg}
  {stmt : Stmt} {dbc : Dbc}

/-- The database that the query for an argument reads. -/
def readDatabase (current arg : Bytes) : Bytes :=
  if namesCatalog (some arg) then denoted arg else current

theorem zero_notMem_readDatabase (hcurrent : 0 ∉ current) (harg : argToString catalogName = some arg) :
    0 ∉ readDatabase current arg := by
  unfold readDatabase
  split
  · apply notMem_denoted fun d => eq_of_toUpper_eq (by decide)
    obtain ⟨text, -, rfl⟩ := Option.map_eq_some_iff.1 harg
    exact zero_notMem_cstr _
  · exact hcurrent

theorem OnlyFrom.of_one {database : Bytes} {listed : ResultSet} (hcount : listed.rowCount = 1)
    (hcell : listed.cellText 0 (columnIndex listed "table_catalog") = some database) :
    OnlyFrom database listed := by
  intro r hr
  obtain rfl : r = 0 := by omega
  exact hcell

theorem listsSelected_sqlColumns (hcurrent : 0 ∉ current)
    (harg : argToString catalogName = some arg) :
    ListsSelected P current (sqlColumns catalogName schemaName tableName lastName stmt dbc) ↔
      P (readDatabase current arg) := by
  have hreads : ∀ schema table column,
      listedDatabase current (columnsSql (some arg) schema table column) = readDatabase current arg :=
    listedDatabase_columnsSql current (some arg)
  unfold sqlColumns
  rw [harg]
  constructor
  · intro h
    obtain ⟨listed, hmessage, hsets, hcount, hcell, -⟩ :=
      decode_catalogAnswer (.inr rfl) (zero_notMem_readDatabase hcurrent harg)
    obtain ⟨reply, hreply⟩ := exists_reply columnsNames (readDatabase current arg)
    have honly := OnlyFrom.of_one hcount hcell
    rw [← hreads (argToString schemaName) (argToString tableName) (argToString lastName)] at honly
    obtain ⟨t, stmt', d, hruns, hown, hsynth⟩ := exists_listing hreply hmessage hsets honly
    obtain ⟨name, hname, hP⟩ := selects_columns.1 (h t stmt' d hruns hown _ hsynth) 0 (by omega)
    rw [hcell] at hname
    exact Option.some.inj hname ▸ hP
  · intro hP
    apply listsSelected_catalogResult
    intro listed honly
    rw [hreads] at honly
    exact selects_columns.2 fun r hr => ⟨_, honly r hr, hP⟩

/-- The two enumerations are asked for with an empty catalog or `%`. -/
theorem tablesForm_eq_listing (hall : isEmptyOrAll (some arg) = false) (schema table types : Option Bytes) :
    tablesForm (some arg) schema table types = .listing := by
  unfold tablesForm
  rw [if_neg, if_neg]
  · rintro ⟨-, hempty, -⟩
    rw [hall] at hempty
    cases hempty
  · rintro ⟨hpercent, -⟩
    rw [hpercent] at hall
    cases hall

theorem listsSelected_sqlTables (hcurrent : 0 ∉ current)
    (harg : argToString catalogName = some arg) (hall : isEmptyOrAll (some arg) = false) :
    ListsSelected P current (sqlTables catalogName schemaName tableName lastName stmt dbc) ↔
      P (readDatabase current arg) := by
  have hreads : ∀ schema table,
      listedDatabase current (tablesSql (some arg) schema table) = readDatabase current arg :=
    listedDatabase_tablesSql current (some arg)
  unfold sqlTables
  dsimp only
  rw [harg, tablesForm_eq_listing hall]
  constructor
  · intro h
    obtain ⟨listed, hmessage, hsets, hcount, hcell, htype⟩ :=
      decode_catalogAnswer (.inl rfl) (zero_notMem_readDatabase hcurrent harg)
    obtain ⟨reply, hreply⟩ := exists_reply tablesNames (readDatabase current arg)
    have honly := OnlyFrom.of_one hcount hcell
    rw [← hreads (argToString schemaName) (argToString tableName)] at honly
    obtain ⟨t, stmt', d, hruns, hown, hsynth⟩ := exists_listing hreply hmessage hsets honly
    -- a row without a type is of every type
    have hrow : (tableRow (argToString lastName) listed 0).isSome = true := by
      unfold tableRow
      dsimp only
      simp only [htype rfl]
      rfl
    obtain ⟨name, hname, hP⟩ :=
      (selects_tables _).1 (h t stmt' d hruns hown _ hsynth) 0 (by omega) hrow
    rw [hcell] at hname
    exact Option.some.inj hname ▸ hP
  · intro hP
    apply listsSelected_catalogResult
    intro listed honly
    rw [hreads] at honly
    exact (selects_tables _).2 fun r hr _ => ⟨_, honly r hr, hP⟩

end

/-- Where the engine keeps the databases apart, `SQLColumns` shows only rows of the catalog that its
argument names exactly if the argument has no `%` and no `_`, or names the current database. And
`SQLTables` shows only rows of catalogs that match its argument, upper and lower case apart, exactly if
the argument has no `%`, no `_` and no escaped backslash, or has one of the first two and the current
database matches it. -/
theorem listsSelected_iff {current arg : Bytes} (hcurrent : 0 ∉ current)
    {catalogName schemaName tableName lastName : CatalogArg}
    (harg : argToString catalogName = some arg) (hall : isEmptyOrAll (some arg) = false) (stmt : Stmt)
    (dbc : Dbc) :
    (ListsSelected (· = denoted arg) current
        (sqlColumns catalogName schemaName tableName lastName stmt dbc) ↔
      (ch '%' ∉ arg ∧ ch '_' ∉ arg) ∨ current = denoted arg) ∧
    (ListsSelected (PatternSelects (denoted arg)) current
        (sqlTables catalogName schemaName tableName lastName stmt dbc) ↔
      if ch '%' ∉ arg ∧ ch '_' ∉ arg then ¬lit "\\\\" <:+: denoted arg
      else PatternSelects (denoted arg) current) := by
  have hnames : namesCatalog (some arg) = true ↔ ch '%' ∉ arg ∧ ch '_' ∉ arg := by
    unfold namesCatalog
    rw [hall]
    simp only [Bool.not_false, Bool.true_and, Option.getD_some, Bool.and_eq_true, decide_eq_true_eq]
  rw [listsSelected_sqlColumns hcurrent harg, listsSelected_sqlTables hcurrent harg hall]
  unfold readDatabase
  simp only [hnames]
  split
  · next hplain =>
    exact ⟨iff_of_true rfl (.inl hplain), patternSelects_self_iff
      (notMem_denoted (fun d => eq_of_toUpper_eq (by decide)) hplain.1)
      (notMem_denoted (fun d => eq_of_toUpper_eq (by decide)) hplain.2)⟩
  · next hplain => exact ⟨(or_iff_right hplain).symm, Iff.rfl⟩

/-- For a name without an underscore, whatever the current database is. -/
theorem listsSelected_reports :
    ListsSelected (· = denoted (lit "reports")) (lit "DEMO")
      (sqlColumns ⟨some (lit "reports"), sqlNts⟩ ⟨none, sqlNts⟩ ⟨none, sqlNts⟩ ⟨none, sqlNts⟩ freshStmt
        allocDbc) ∧
    ListsSelected (PatternSelects (denoted (lit "reports"))) (lit "DEMO")
      (sqlTables ⟨some (lit "reports"), sqlNts⟩ ⟨none, sqlNts⟩ ⟨none, sqlNts⟩ ⟨none, sqlNts⟩ freshStmt
        allocDbc) := by
  have h := @listsSelected_iff (lit "DEMO") (lit "reports") (by decide)
    ⟨some (lit "reports"), sqlNts⟩ ⟨none, sqlNts⟩ ⟨none, sqlNts⟩ ⟨none, sqlNts⟩ (by decide) (by decide)
    freshStmt allocDbc
  rw [if_pos (by decide : ch '%' ∉ lit "reports" ∧ ch '_' ∉ lit "reports")] at h
  exact ⟨h.1.2 (by decide), h.2.2 (by decide)⟩

/-- A listing of `MY_DB` shows rows of the current database. -/
theorem not_listsSelected_my_db :
    ¬ListsSelected (· = denoted (lit "MY_DB")) (lit "DEMO")
      (sqlColumns ⟨some (lit "MY_DB"), sqlNts⟩ ⟨none, sqlNts⟩ ⟨none, sqlNts⟩ ⟨none, sqlNts⟩ freshStmt
        allocDbc) ∧
    ¬ListsSelected (PatternSelects (denoted (lit "MY_DB"))) (lit "DEMO")
      (sqlTables ⟨some (lit "MY_DB"), sqlNts⟩ ⟨none, sqlNts⟩ ⟨none, sqlNts⟩ ⟨none, sqlNts⟩ freshStmt
        allocDbc) := by
  have hread : readDatabase (lit "DEMO") (lit "MY_DB") = lit "DEMO" := by decide
  rw [listsSelected_sqlColumns (by decide) (by decide : _ = some (lit "MY_DB")),
    listsSelected_sqlTables (by decide) (by decide : _ = some (lit "MY_DB")) (by decide), hread]
  refine ⟨by decide, fun h => ?_⟩
  have hpattern : (denoted (lit "MY_DB")).map toUpper = ch 'M' :: lit "Y_DB" := by decide
  have hname : (lit "DEMO").map toUpper = ch 'D' :: lit "EMO" := by decide
  unfold PatternSelects at h
  rw [hpattern, hname] at h
  cases h

end FrostlakeOdbc
