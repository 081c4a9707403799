import FrostlakeOdbc.Connect
import FrostlakeOdbc.Results

/-!
# Catalog functions (`catalog.c`)

`SQLTables` and `SQLColumns` query the information schema and put the answer together anew as a result
set of their own. A loop over the rows of an answer is a list of the rows it adds.
-/

namespace FrostlakeOdbc

open CString Exchange

/-! ## Result sets of the driver's own (`util.c`) -/

/-- `fl_synth_column`. -/
def flSynthColumn (name : String) (sqlType : SqlType) : Column :=
  { name := lit name
    typeName := some (match sqlType with
      | .smallint => lit "SMALLINT"
      | .integer => lit "INTEGER"
      | _ => lit "VARCHAR")
    sqlType := sqlType
    precision := 0
    scale := 0
    length := 0 }

/-- `fl_synth_text`. -/
def flSynthText (text : Bytes) : Cell := { text := some text, kind := 's', isNull := false }

/-- `fl_synth_int`. -/
def flSynthInt (value : ℤ) : Cell :=
  { text := some (snprintf 24 (intText value)), kind := 'n', isNull := false }

/-- `fl_synth_null`. -/
def flSynthNull : Cell := { text := none, kind := 's', isNull := true }

/-- A text, or SQL NULL where there is none. -/
def synthOptional (text : Option Bytes) : Cell :=
  match text with
  | some text => flSynthText text
  | none => flSynthNull

/-- `fl_synth_new`, with the rows that are added. -/
def flSynthNew (columns : List Column) (rows : List (List Cell)) : ResultSet :=
  { columns := columns
    columnCount := columns.length
    cells := rows.flatten
    rowCount := rows.length }

/-! ## Helpers -/

/-- A text argument of a catalog function, with its length or `SQL_NTS`. -/
structure CatalogArg where
  text : Option Bytes
  length : ℤ

/-- `arg_to_string`, as the C string its callers read. -/
def argToString (arg : CatalogArg) : Option Bytes :=
  arg.text.map fun text => cstr (bufferText text arg.length)

/-- `is_empty_or_all`. -/
def isEmptyOrAll (pattern : Option Bytes) : Bool :=
  match pattern with
  | none => true
  | some pattern => pattern = [] || pattern = lit "%"

/-- `append_like`. -/
def appendLike (identifier : String) (pattern : Bytes) : Bytes :=
  lit " AND " ++ lit identifier ++ lit " LIKE '" ++
    (pattern.flatMap fun c => if c = ch '\'' || c = ch '\\' then [c, c] else [c]) ++ lit "'"

/-- `cell_text`, of a column found by `column_index`. -/
def ResultSet.cellText (set : ResultSet) (row : ℕ) (col : Option ℕ) : Option Bytes :=
  match col with
  | none => none
  | some col =>
      if set.columnCount ≤ col then none
      else (set.cellAt row col).bind fun cell => if cell.isNull then none else cell.text

/-- `column_index`. -/
def columnIndex (set : ResultSet) (name : String) : Option ℕ :=
  set.columns.findIdx? fun column => strcaseeq column.name (lit name)

/-- `install_synth`. -/
def installSynth (stmt : Stmt) (synth : ResultSet) : Stmt :=
  { flStmtClearResults stmt with
    synth := some synth
    currentRow := -1
    rowCount := synth.rowCount }

/-- What a catalog function makes of the answer to its query. -/
def catalogResult (query : Bytes) (synth : ResultSet → ResultSet) (stmt : Stmt) (dbc : Dbc) :
    Call (Except Diag Unit × Stmt × Dbc) := do
  let (listed, dbc) ← runCatalogQuery query dbc
  match listed with
  | .error diag => return (.error diag, stmt, dbc)
  | .ok listed => return (.ok (), installSynth stmt (synth listed), dbc)

/-! ## The queries -/

/-- Whether a catalog argument names one catalog, which a query can be limited to. -/
def namesCatalog (catalog : Option Bytes) : Bool :=
  !isEmptyOrAll catalog && ch '%' ∉ catalog.getD [] && ch '_' ∉ catalog.getD []

/-- The catalog in front of the information schema. Its name is not empty, so
`fl_strbuf_append_ident` does not refuse it. -/
def appendCatalog (buf : Bytes) (catalog : Option Bytes) : Bytes :=
  if namesCatalog catalog then buf ++ ident (catalog.getD []) ++ lit "." else buf

/-- One restriction of a query. -/
def appendRestriction (buf : Bytes) (identifier : String) (pattern : Option Bytes) : Bytes :=
  if isEmptyOrAll pattern then buf else buf ++ appendLike identifier (pattern.getD [])

/-- The query of `SQLTables`. -/
def tablesSql (catalog schema table : Option Bytes) : Bytes :=
  let sql := lit "SELECT table_catalog, table_schema, table_name, table_type FROM "
  let sql := appendCatalog sql catalog
  let sql := sql ++ lit "information_schema.tables WHERE 1=1"
  let sql := appendRestriction sql "table_schema" schema
  let sql := appendRestriction sql "table_name" table
  sql ++ lit " ORDER BY table_schema, table_name"

/-- The query of `SQLColumns`. -/
def columnsSql (catalog schema table column : Option Bytes) : Bytes :=
  let sql := lit ("SELECT table_catalog, table_schema, table_name, column_name, data_type," ++
    " character_maximum_length, numeric_precision, numeric_scale, is_nullable," ++
    " ordinal_position, column_default FROM ")
  let sql := appendCatalog sql catalog
  let sql := sql ++ lit "information_schema.columns WHERE 1=1"
  let sql := appendRestriction sql "table_schema" schema
  let sql := appendRestriction sql "table_name" table
  let sql := appendRestriction sql "column_name" column
  sql ++ lit " ORDER BY table_schema, table_name, ordinal_position"

/-! ## `SQLTables` -/

/-- `tables_shape`, with its rows. -/
def tablesShape (rows : List (List Cell)) : ResultSet :=
  flSynthNew ((["TABLE_CAT", "TABLE_SCHEM", "TABLE_NAME", "TABLE_TYPE", "REMARKS"]).map fun name =>
    flSynthColumn name .varchar) rows

/-- The loop of `type_list_contains`. -/
def typeListContainsFrom : ℕ → Bytes → Bytes → Bool
  | 0, _, _ => false
  | _ + 1, [], _ => false
  | fuel + 1, c :: rest, wanted =>
      let cur := (c :: rest).dropWhile fun c => c = ch ' ' || c = ch ',' || c = ch '\''
      let word := trimEnd (· = ch ' ') (cur.takeWhile fun c => c ≠ ch ',' && c ≠ ch '\'')
      if word.length = wanted.length ∧ strncaseeq word wanted wanted.length then true
      else typeListContainsFrom fuel (cur.dropWhile fun c => c ≠ ch ',' && c ≠ ch '\'') wanted

/-- `type_list_contains`. -/
def typeListContains (list : Option Bytes) (wanted : Bytes) : Bool :=
  if isEmptyOrAll list then true
  else typeListContainsFrom (list.getD []).length (list.getD []) wanted

/-- The rows of `SQL_ALL_CATALOGS`. -/
def databaseRows (shown : ResultSet) : List (List Cell) :=
  (List.range shown.rowCount.toNat).map fun r =>
    flSynthText ((shown.cellText r (columnIndex shown "name")).getD []) ::
      List.replicate 4 flSynthNull

/-- The rows of `SQL_ALL_TABLE_TYPES`. -/
def tableTypeRows : List (List Cell) :=
  (["TABLE", "VIEW"]).map fun kind =>
    [flSynthNull, flSynthNull, flSynthNull, flSynthText (lit kind), flSynthNull]

/-- A row of the general listing of `SQLTables`, if its type is one of the types asked for. -/
def tableRow (types : Option Bytes) (listed : ResultSet) (r : ℕ) : Option (List Cell) :=
  let cell (name : String) : Option Bytes := listed.cellText r (columnIndex listed name)
  let mapped := (cell "table_type").map fun rawType =>
    if strcaseeq rawType (lit "BASE TABLE") then lit "TABLE" else rawType
  if mapped.all (typeListContains types) then
    some [synthOptional (cell "table_catalog"), synthOptional (cell "table_schema"),
      flSynthText ((cell "table_name").getD []), flSynthText (mapped.getD (lit "TABLE")), flSynthNull]
  else none

/-- The forms of a call of `SQLTables`. -/
inductive TablesForm : Type where
  /-- `SQL_ALL_CATALOGS`. -/
  | databases
  /-- `SQL_ALL_TABLE_TYPES`. -/
  | tableTypes
  | listing
  deriving DecidableEq

def tablesForm (catalog schema table types : Option Bytes) : TablesForm :=
  if catalog = some (lit "%") ∧ schema = some [] ∧ table = some [] then .databases
  else if types = some (lit "%") ∧ isEmptyOrAll catalog ∧ isEmptyOrAll schema ∧ isEmptyOrAll table ∧
      catalog.getD [] = [] then .tableTypes
  else .listing

/-- `SQLTables`. -/
def sqlTables (catalogName schemaName tableName tableType : CatalogArg) (stmt : Stmt) (dbc : Dbc) :
    Call (Except Diag Unit × Stmt × Dbc) :=
  let catalog := argToString catalogName
  let schema := argToString schemaName
  let table := argToString tableName
  let types := argToString tableType
  match tablesForm catalog schema table types with
  | .databases =>
      catalogResult (lit "SHOW DATABASES") (fun shown => tablesShape (databaseRows shown)) stmt dbc
  | .tableTypes => return (.ok (), installSynth stmt (tablesShape tableTypeRows), dbc)
  | .listing =>
      catalogResult (tablesSql catalog schema table) (fun listed =>
        tablesShape ((List.range listed.rowCount.toNat).filterMap (tableRow types listed))) stmt dbc

/-! ## `SQLColumns` -/

/-- The columns of `COLUMNS_COLUMNS`, with their types. -/
def columnsColumns : List Column :=
  [flSynthColumn "TABLE_CAT" .varchar, flSynthColumn "TABLE_SCHEM" .varchar,
    flSynthColumn "TABLE_NAME" .varchar, flSynthColumn "COLUMN_NAME" .varchar,
    flSynthColumn "DATA_TYPE" .smallint, flSynthColumn "TYPE_NAME" .varchar,
    flSynthColumn "COLUMN_SIZE" .integer, flSynthColumn "BUFFER_LENGTH" .integer,
    flSynthColumn "DECIMAL_DIGITS" .integer, flSynthColumn "NUM_PREC_RADIX" .integer,
    flSynthColumn "NULLABLE" .smallint, flSynthColumn "REMARKS" .varchar,
    flSynthColumn "COLUMN_DEF" .varchar, flSynthColumn "SQL_DATA_TYPE" .smallint,
    flSynthColumn "SQL_DATETIME_SUB" .smallint, flSynthColumn "CHAR_OCTET_LENGTH" .integer,
    flSynthColumn "ORDINAL_POSITION" .integer, flSynthColumn "IS_NULLABLE" .varchar]

/-- A row of `SQLColumns`. -/
def columnRow (listed : ResultSet) (r : ℕ) : List Cell :=
  let cell (name : String) : Option Bytes := listed.cellText r (columnIndex listed name)
  let typeName := cell "data_type"
  let scaleText := cell "numeric_scale"
  let scale := (scaleText.map (strtol 10)).getD 0
  let sqlType := flSqlTypeFor typeName (toInt scale)
  let size :=
    (((cell "character_maximum_length").or (cell "numeric_precision")).map (strtol 10)).getD 0
  let probe : Column := ⟨[], none, sqlType, 0, 0, 0⟩
  let columnSize := if size = 0 then (flTypeDisplaySize probe).1 else size
  let nullable := (cell "is_nullable").all fun text => strcaseeq text (lit "YES")
  let position := ((cell "ordinal_position").map (strtol 10)).getD (r + 1)
  [synthOptional (cell "table_catalog"),
    synthOptional (cell "table_schema"),
    flSynthText ((cell "table_name").getD []),
    flSynthText ((cell "column_name").getD []),
    flSynthInt sqlType.code,
    flSynthText (typeName.getD (lit "VARCHAR")),
    flSynthInt columnSize,
    flSynthInt columnSize,
    if scaleText.isSome then flSynthInt scale else flSynthNull,
    flSynthInt (if sqlType = .double then 2 else 10),
    flSynthInt (if nullable then 1 else 0),
    flSynthNull,
    synthOptional (cell "column_default"),
    flSynthInt (if sqlType.datetimeSub.isSome then 9 else sqlType.code),
    match sqlType.datetimeSub with
    | some sub => flSynthInt sub
    | none => flSynthNull,
    flSynthInt columnSize,
    flSynthInt position,
    flSynthText (if nullable then lit "YES" else lit "NO")]

/-- `SQLColumns`. -/
def sqlColumns (catalogName schemaName tableName columnName : CatalogArg) (stmt : Stmt) (dbc : Dbc) :
    Call (Except Diag Unit × Stmt × Dbc) :=
  let query := columnsSql (argToString catalogName) (argToString schemaName)
    (argToString tableName) (argToString columnName)
  catalogResult query (fun listed =>
    flSynthNew columnsColumns ((List.range listed.rowCount.toNat).map (columnRow listed))) stmt dbc

/-! ## `SQLGetTypeInfo` -/

/-- `type_row`: a type of the engine under its name, with the ODBC type it is listed as. -/
structure TypeRow where
  name : String
  dataType : SqlType
  columnSize : ℤ
  literalPrefix : Option String := none
  literalSuffix : Option String := none
  createParams : Option String := none
  minScale : ℤ := 0
  maxScale : ℤ := 0

/-- The rows of `types`. -/
def typeRows : List TypeRow :=
  [{ name := "VARCHAR", dataType := .varchar, columnSize := 16777216, literalPrefix := "'",
      literalSuffix := "'", createParams := "max length" },
    { name := "NUMBER", dataType := .decimal, columnSize := 38, createParams := "precision,scale",
      maxScale := 37 },
    { name := "NUMBER", dataType := .bigint, columnSize := 19 },
    { name := "FLOAT", dataType := .double, columnSize := 15 },
    { name := "BOOLEAN", dataType := .bit, columnSize := 1 },
    { name := "DATE", dataType := .typeDate, columnSize := 10, literalPrefix := "'",
      literalSuffix := "'" },
    { name := "TIME", dataType := .typeTime, columnSize := 8, literalPrefix := "'",
      literalSuffix := "'", maxScale := 9 },
    { name := "TIMESTAMP_NTZ", dataType := .typeTimestamp, columnSize := 29, literalPrefix := "'",
      literalSuffix := "'", maxScale := 9 },
    { name := "BINARY", dataType := .varbinary, columnSize := 8388608, literalPrefix := "X'",
      literalSuffix := "'", createParams := "max length" },
    { name := "VARIANT", dataType := .varchar, columnSize := 16777216 }]

/-- The columns of `SQLGetTypeInfo`, with their types. -/
def typeInfoColumns : List Column :=
  [flSynthColumn "TYPE_NAME" .varchar, flSynthColumn "DATA_TYPE" .smallint,
    flSynthColumn "COLUMN_SIZE" .integer, flSynthColumn "LITERAL_PREFIX" .varchar,
    flSynthColumn "LITERAL_SUFFIX" .varchar, flSynthColumn "CREATE_PARAMS" .varchar,
    flSynthColumn "NULLABLE" .smallint, flSynthColumn "CASE_SENSITIVE" .smallint,
    flSynthColumn "SEARCHABLE" .smallint, flSynthColumn "UNSIGNED_ATTRIBUTE" .smallint,
    flSynthColumn "FIXED_PREC_SCALE" .smallint, flSynthColumn "AUTO_UNIQUE_VALUE" .smallint,
    flSynthColumn "LOCAL_TYPE_NAME" .varchar, flSynthColumn "MINIMUM_SCALE" .smallint,
    flSynthColumn "MAXIMUM_SCALE" .smallint, flSynthColumn "SQL_DATA_TYPE" .smallint,
    flSynthColumn "SQL_DATETIME_SUB" .smallint, flSynthColumn "NUM_PREC_RADIX" .integer,
    flSynthColumn "INTERVAL_PRECISION" .smallint]

def sqlSearchable : ℤ := 3

/-- A row of `SQLGetTypeInfo`. -/
def typeInfoRow (t : TypeRow) : List Cell :=
  let optional (text : Option String) : Cell := synthOptional (text.map lit)
  [flSynthText (lit t.name),
    flSynthInt t.dataType.code,
    flSynthInt t.columnSize,
    optional t.literalPrefix,
    optional t.literalSuffix,
    optional t.createParams,
    flSynthInt 1,
    flSynthInt (if t.dataType = .varchar then 1 else 0),
    flSynthInt sqlSearchable,
    flSynthInt 0,
    flSynthInt 0,
    flSynthInt 0,
    flSynthText (lit t.name),
    flSynthInt t.minScale,
    flSynthInt t.maxScale,
    flSynthInt (if t.dataType.datetimeSub.isSome then 9 else t.dataType.code),
    match t.dataType.datetimeSub with
    | some sub => flSynthInt sub
    | none => flSynthNull,
    flSynthInt (if t.dataType = .double then 2 else 10),
    flSynthNull]

def sqlAllTypes : ℤ := 0

/-- The result set `SQLGetTypeInfo` installs. -/
def typeInfo (dataType : Int16) : ResultSet :=
  let listed (t : TypeRow) : Bool :=
    dataType.toInt = sqlAllTypes || dataType.toInt = t.dataType.code
  flSynthNew typeInfoColumns ((typeRows.filter listed).map typeInfoRow)

/-- `SQLGetTypeInfo`. -/
def sqlGetTypeInfo (dataType : Int16) (stmt : Stmt) : SqlReturn × Stmt :=
  (.success, installSynth stmt (typeInfo dataType))

/-! ## Catalog answers without rows -/

/-- `empty_result`. -/
def emptyResult (names : List String) (stmt : Stmt) : SqlReturn × Stmt :=
  (.success, installSynth stmt (flSynthNew (names.map fun name => flSynthColumn name .varchar) []))

/-- `SQLStatistics`. -/
def sqlStatistics : Stmt → SqlReturn × Stmt :=
  emptyResult ["TABLE_CAT", "TABLE_SCHEM", "TABLE_NAME", "NON_UNIQUE", "INDEX_QUALIFIER",
    "INDEX_NAME", "TYPE", "ORDINAL_POSITION", "COLUMN_NAME", "ASC_OR_DESC", "CARDINALITY", "PAGES",
    "FILTER_CONDITION"]

/-- `SQLSpecialColumns`. -/
def sqlSpecialColumns : Stmt → SqlReturn × Stmt :=
  emptyResult ["SCOPE", "COLUMN_NAME", "DATA_TYPE", "TYPE_NAME", "COLUMN_SIZE", "BUFFER_LENGTH",
    "DECIMAL_DIGITS", "PSEUDO_COLUMN"]

/-- `SQLPrimaryKeys`. -/
def sqlPrimaryKeys : Stmt → SqlReturn × Stmt :=
  emptyResult ["TABLE_CAT", "TABLE_SCHEM", "TABLE_NAME", "COLUMN_NAME", "KEY_SEQ", "PK_NAME"]

end FrostlakeOdbc
