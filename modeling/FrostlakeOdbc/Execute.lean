import FrostlakeOdbc.Proto

/-!
# Statement execution (`execute.c`)

Parameters are rendered as SQL literals and put in the place of their markers before a statement is
sent. The functions that append to a buffer are given as what they append.
-/

namespace FrostlakeOdbc

open CString Exchange

/-! ## Parameters -/

/-- What the buffer of a parameter holds, by its C type. A character buffer is the memory from the
pointer on. -/
inductive CValue : Type where
  | char (memory : Bytes)
  | wchar
  | slong (n : Int32)
  | ulong (n : UInt32)
  | sshort (n : Int16)
  | ushort (n : UInt16)
  | stinyint (n : Int8)
  | utinyint (n : UInt8)
  | sbigint (n : Int64)
  | ubigint (n : UInt64)
  /-- A `SQLREAL`, with what `%.9g` prints for it. -/
  | float (printed : Bytes)
  /-- A `SQLDOUBLE`, with what `%.17g` prints for it. -/
  | double (printed : Bytes)
  | bit (n : UInt8)
  | binary (memory : Bytes)
  | date (year : Int16) (month day : UInt16)
  | time (hour minute second : UInt16)
  | timestamp (year : Int16) (month day hour minute second : UInt16) (fraction : UInt32)
  | other (cType : Int16)

/-- A parameter of a statement. A `NULL` buffer or indicator is `none`. -/
structure BoundParam where
  bound : Bool
  sqlType : SqlType
  buffer : Option CValue
  strLenOrInd : Option ℤ

def sqlNullData : ℤ := -1

def sqlDataAtExec : ℤ := -2

def sqlNts : ℤ := -3

def sqlDefaultParam : ℤ := -5

def sqlLenDataAtExecOffset : ℤ := -100

/-- The text of a buffer with a length or `SQL_NTS`. -/
def bufferText (memory : Bytes) (length : ℤ) : Bytes :=
  if length = sqlNts then cstr memory else memory.take length.toNat

def isParamBlank (c : UInt8) : Bool := c = ch ' ' || c = ch '\t'

/-- A text without the blanks around it. -/
def trimBlanks (text : Bytes) : Bytes :=
  ((text.dropWhile isParamBlank).reverse.dropWhile isParamBlank).reverse

/-- The sign in front of a number is stepped over. -/
def dropSign : Bytes → Bytes
  | c :: rest => if c = ch '+' || c = ch '-' then rest else c :: rest
  | [] => []

/-- What is left of a number behind its exponent, if the exponent has digits. -/
def dropExponent : Bytes → Option Bytes
  | c :: rest =>
      if c = ch 'e' || c = ch 'E' then
        let digits := dropSign rest
        if digits.takeWhile isDigit = [] then none else some (digits.dropWhile isDigit)
      else some (c :: rest)
  | [] => some []

/-- `is_numeric_literal`. -/
def isNumericLiteral (text : Bytes) : Bool :=
  let s := dropSign (trimBlanks text)
  let int := s.takeWhile isDigit
  let s := s.dropWhile isDigit
  let (frac, s) :=
    if s.head? = some (ch '.') then ((s.drop 1).takeWhile isDigit, (s.drop 1).dropWhile isDigit)
    else ([], s)
  if int ++ frac = [] then false else dropExponent s = some []

/-- `append_number`. -/
def appendNumber (text : Bytes) : Bytes :=
  if (text.dropWhile isParamBlank).head? = some (ch '-') then lit "(" ++ text ++ lit ")" else text

/-- What stands for one byte of a text in a string literal. -/
def escapeStringByte (c : UInt8) : Bytes :=
  if c = ch '\'' then [ch '\'', c] else if c = ch '\\' then [ch '\\', c] else [c]

/-- `append_string_literal`. -/
def appendStringLiteral (text : Bytes) : Bytes := lit "'" ++ text.flatMap escapeStringByte ++ lit "'"

def hexByte (c : UInt8) : Bytes :=
  let digit (n : ℕ) : UInt8 := UInt8.ofNat (if n < 10 then 48 + n else 55 + n)
  [digit (c.toNat / 16), digit (c.toNat % 16)]

/-- `append_binary_literal`. -/
def appendBinaryLiteral (bytes : Bytes) : Bytes := lit "X'" ++ bytes.flatMap hexByte ++ lit "'"

/-- The SQL types a character parameter is spliced as a number for. -/
def SqlType.isNumeric : SqlType → Bool
  | .decimal | .numeric | .integer | .bigint | .double | .float | .real | .smallint | .tinyint => true
  | _ => false

/-- The cast behind a character parameter bound as a temporal type. -/
def SqlType.cast : SqlType → Bytes
  | .typeDate => lit "::DATE"
  | .typeTime => lit "::TIME"
  | .typeTimestamp => lit "::TIMESTAMP_NTZ"
  | _ => []

/-- The `SQL_C_CHAR` case of `append_param_literal`. -/
def appendCharLiteral (sqlType : SqlType) (text : Bytes) : Except Diag Bytes :=
  if sqlType.isNumeric then
    if isNumericLiteral text then .ok (appendNumber text)
    else .error (flDiagSet "22018" (lit "Parameter bound as a numeric SQL type is not a number"))
  else .ok (appendStringLiteral text ++ sqlType.cast)

/-- The size of `text` in `append_param_literal`. -/
def paramTextSize : ℕ := 64

/-- What `append_param_literal` prints for a number. -/
def printedNumber (text : Bytes) : Bytes := snprintf paramTextSize text

def dateText (year : Int16) (month day : UInt16) : Bytes :=
  intTextPadded 4 year.toInt ++ lit "-" ++ natTextPadded 2 month.toNat ++ lit "-" ++
    natTextPadded 2 day.toNat

def timeText (hour minute second : UInt16) : Bytes :=
  natTextPadded 2 hour.toNat ++ lit ":" ++ natTextPadded 2 minute.toNat ++ lit ":" ++
    natTextPadded 2 second.toNat

/-- The part of `append_param_literal` past its checks, with the indicator as a length. -/
def appendValueLiteral (sqlType : SqlType) (length : ℤ) : CValue → Except Diag Bytes
  | .char memory => appendCharLiteral sqlType (bufferText memory length)
  | .wchar => .error (flDiagSet "HYC00"
      (lit "Wide-character parameters are not supported; bind SQL_C_CHAR (UTF-8)"))
  | .slong n => .ok (appendNumber (printedNumber (intText n.toInt)))
  | .ulong n => .ok (printedNumber (natText n.toNat))
  | .sshort n => .ok (appendNumber (printedNumber (intText n.toInt)))
  | .ushort n => .ok (printedNumber (natText n.toNat))
  | .stinyint n => .ok (appendNumber (printedNumber (intText n.toInt)))
  | .utinyint n => .ok (printedNumber (natText n.toNat))
  | .sbigint n => .ok (appendNumber (printedNumber (intText n.toInt)))
  | .ubigint n => .ok (printedNumber (natText n.toNat))
  | .float printed => .ok (appendNumber (printedNumber printed))
  | .double printed => .ok (appendNumber (printedNumber printed))
  | .bit n => .ok (if n ≠ 0 then lit "TRUE" else lit "FALSE")
  | .binary memory => .ok (appendBinaryLiteral (if 0 ≤ length then memory.take length.toNat else []))
  | .date year month day =>
      .ok (snprintf paramTextSize (lit "'" ++ dateText year month day ++ lit "'::DATE"))
  | .time hour minute second =>
      .ok (snprintf paramTextSize (lit "'" ++ timeText hour minute second ++ lit "'::TIME"))
  | .timestamp year month day hour minute second fraction =>
      .ok (snprintf paramTextSize (lit "'" ++ dateText year month day ++ lit "T" ++
        timeText hour minute second ++ lit "." ++ natTextPadded 9 fraction.toNat ++
        lit "'::TIMESTAMP_NTZ"))
  | .other cType =>
      .error (flDiagSet "HYC00" (lit "Unsupported parameter C type " ++ intText cType.toInt))

/-- `append_param_literal`. -/
def appendParamLiteral (param : BoundParam) : Except Diag Bytes :=
  if !param.bound then .error (flDiagSet "07002" (lit "Statement has an unbound parameter"))
  else
    let indicator := param.strLenOrInd.getD sqlNts
    match param.buffer with
    | none => .ok (lit "NULL")
    | some value =>
        if indicator = sqlNullData then .ok (lit "NULL")
        else if indicator < 0 ∧ indicator ≠ sqlNts then
          -- the other negatives are markers, not lengths
          if indicator = sqlDataAtExec ∨ indicator ≤ sqlLenDataAtExecOffset then
            .error (flDiagSet "HYC00" (lit "Data-at-execution parameters are not supported"))
          else if indicator = sqlDefaultParam then
            .error (flDiagSet "HYC00" (lit "SQL_DEFAULT_PARAM is not supported"))
          else
            .error (flDiagSet "HY090"
              (lit "Invalid string or buffer length " ++ intText indicator))
        else appendValueLiteral param.sqlType indicator value

/-! ## Substitution -/

/-- `has_bound_params`. -/
def hasBoundParams (params : List BoundParam) : Bool := params.any BoundParam.bound

/-- The loop of `count_placeholders`. -/
def countPlaceholdersFrom : ℕ → Bytes → ℕ
  | 0, _ => 0
  | _ + 1, [] => 0
  | fuel + 1, c :: rest =>
      match flSqlSkip (c :: rest) with
      | some k => countPlaceholdersFrom fuel ((c :: rest).drop k)
      | none => (if c = ch '?' then 1 else 0) + countPlaceholdersFrom fuel rest

/-- `count_placeholders`. -/
def countPlaceholders (sql : Bytes) : ℕ := countPlaceholdersFrom sql.length sql

/-- The loop of `substitute_params`. -/
def substituteParamsFrom : ℕ → List BoundParam → Bytes → Except Diag Bytes
  | 0, _, _ => .ok []
  | _ + 1, _, [] => .ok []
  | fuel + 1, params, c :: rest =>
      match flSqlSkip (c :: rest) with
      | some k =>
          (substituteParamsFrom fuel params ((c :: rest).drop k)).map ((c :: rest).take k ++ ·)
      | none =>
          if c = ch '?' then
            match params with
            | [] => .error (flDiagSet "07002" (lit "More placeholders than bound parameters"))
            | param :: params => do
                let literal ← appendParamLiteral param
                (substituteParamsFrom fuel params rest).map (literal ++ ·)
          else (substituteParamsFrom fuel params rest).map (c :: ·)

/-- `substitute_params`: what the buffer holds, up to its length. -/
def substituteParams (params : List BoundParam) (sql : Bytes) : Except Diag Bytes :=
  substituteParamsFrom sql.length params sql

/-! ## Statements -/

/-- A statement handle, as far as executing uses it. -/
structure Stmt where
  preparedSql : Option Bytes
  response : Option Response
  currentSet : ℕ
  /-- A result set the driver built itself. -/
  synth : Option ResultSet
  currentRow : ℤ
  rowCount : ℤ
  getdataCol : ℤ
  getdataOffset : ℕ
  boundCols : List BoundCol := []
  params : List BoundParam
  multiStatementCount : ℤ
  /-- `SQL_ATTR_MAX_ROWS`; 0 is every row. -/
  maxRows : ℕ := 0
  /-- Whether `SQLFetch` is to write the number of rows it fetched, and the status of the row. -/
  rowsFetchedPtr : Bool := false
  rowStatusPtr : Bool := false

/-- A statement as it is allocated. -/
def freshStmt : Stmt where
  preparedSql := none
  response := none
  currentSet := 0
  synth := none
  currentRow := -1
  rowCount := -1
  getdataCol := -1
  getdataOffset := 0
  params := []
  multiStatementCount := -1

/-- `fl_stmt_clear_results`. -/
def flStmtClearResults (stmt : Stmt) : Stmt :=
  { stmt with
    response := none
    synth := none
    currentSet := 0
    currentRow := -1
    rowCount := -1
    getdataCol := -1
    getdataOffset := 0 }

/-- `fl_stmt_current_set`. -/
def flStmtCurrentSet (stmt : Stmt) : Option ResultSet :=
  match stmt.synth with
  | some set => some set
  | none => stmt.response.bind fun response => response.sets[stmt.currentSet]?

/-- Drops the characters at the end of a text that `p` holds of. -/
def trimEnd (p : UInt8 → Bool) (s : Bytes) : Bytes := (s.reverse.dropWhile p).reverse

/-- The inside of a quoted name, its doubled quotes undone. -/
def undoubleQuotes : Bytes → Bytes
  | c :: d :: rest =>
      if c = ch '"' ∧ d = ch '"' then d :: undoubleQuotes rest else c :: undoubleQuotes (d :: rest)
  | s => s

/-- The name `track_context` keeps of what follows the words of a USE. -/
def trackedName (rest : Bytes) : Option Bytes :=
  let rest := rest.dropWhile fun c => c = ch ' '
  let name := trimEnd (fun c => c = ch ';' || c = ch ' ' || c = ch '\n' || c = ch '\r') rest
  if name = [] then none
  else if name.head? = some (ch '"') ∧ 2 ≤ name.length ∧ name.getLast? = some (ch '"') then
    some (undoubleQuotes (name.drop 1).dropLast)
  else some (name.map toUpper)

/-- `track_context`. -/
def trackContext (dbc : Dbc) (sql : Bytes) : Dbc :=
  let sql := sql.dropWhile fun c => c = ch ' ' || c = ch '\t' || c = ch '\n' || c = ch '\r'
  if strncaseeq sql (lit "USE DATABASE ") 13 then
    match trackedName (sql.drop 13) with
    | some name => { dbc with database := some name }
    | none => dbc
  else if strncaseeq sql (lit "USE SCHEMA ") 11 then
    match trackedName (sql.drop 11) with
    | some name => { dbc with schema := some name }
    | none => dbc
  else dbc

/-- `fl_rows_affected`. -/
def flRowsAffected (set : ResultSet) : ℤ :=
  if set.rowCount < 1 then -1
  else
    let counts := (set.columns.zip set.cells).filterMap fun (column, cell) =>
      if strncaseeq column.name (lit "number of rows") 14 && !cell.isNull then
        cell.text.map (strtol 10)
      else none
    if counts = [] then -1 else counts.sum

/-- `run_sql`. -/
def runSql (stmt : Stmt) (sql : Bytes) (dbc : Dbc) : Call (Except Diag Unit × Stmt × Dbc) := do
  let stmt := flStmtClearResults stmt
  let (result, dbc) ← flProtoExecuteCounted dbc sql stmt.multiStatementCount
  match result with
  | .error e => return (.error (flDiagSet "08S01" e.text), stmt, dbc)
  | .ok response =>
      match response.errorMessage with
      | some message => return (.error (flDiagSet "42000" message), stmt, dbc)
      | none =>
          let stmt := { stmt with response := some response, currentSet := 0, currentRow := -1 }
          let rowCount :=
            match flStmtCurrentSet stmt with
            | some set =>
                let affected := flRowsAffected set
                if 0 ≤ affected then affected else set.rowCount
            | none => 0
          return (.ok (), { stmt with rowCount := rowCount }, trackContext dbc sql)

/-- `copy_sql`, as the C string its callers read. -/
def copySql (text : Bytes) (length : ℤ) : Bytes := cstr (bufferText text length)

/-- What `SQLExecDirect` and `SQLExecute` do with the text of a statement. The substituted text is a
C string from here on. -/
def executeSql (stmt : Stmt) (sql : Bytes) (dbc : Dbc) : Call (Except Diag Unit × Stmt × Dbc) :=
  if hasBoundParams stmt.params && 0 < countPlaceholders sql then
    match substituteParams stmt.params sql with
    | .error diag => return (.error diag, stmt, dbc)
    | .ok finalSql => runSql stmt (cstr finalSql) dbc
  else runSql stmt sql dbc

/-- The text that `executeSql` sends: the literals of the parameters are put in. -/
def Stmt.delivered (stmt : Stmt) (sql : Bytes) : Except Diag Bytes :=
  if hasBoundParams stmt.params && 0 < countPlaceholders sql then
    (substituteParams stmt.params sql).map cstr
  else .ok sql

theorem executeSql_eq (stmt : Stmt) (sql : Bytes) (dbc : Dbc) :
    executeSql stmt sql dbc =
      match stmt.delivered sql with
      | .error diag => pure (.error diag, stmt, dbc)
      | .ok final => runSql stmt final dbc := by
  unfold executeSql Stmt.delivered
  split
  · cases substituteParams stmt.params sql <;> rfl
  · rfl

/-- `SQLExecDirect`. -/
def sqlExecDirect (stmt : Stmt) (text : Bytes) (length : ℤ) (dbc : Dbc) :
    Call (Except Diag Unit × Stmt × Dbc) :=
  executeSql stmt (copySql text length) dbc

/-- `SQLPrepare`. -/
def sqlPrepare (stmt : Stmt) (text : Bytes) (length : ℤ) : Stmt :=
  flStmtClearResults { stmt with preparedSql := some (copySql text length) }

/-- `SQLExecute`. -/
def sqlExecute (stmt : Stmt) (dbc : Dbc) : Call (Except Diag Unit × Stmt × Dbc) :=
  match stmt.preparedSql with
  | none => return (.error (flDiagSet "HY010" (lit "No prepared statement")), stmt, dbc)
  | some sql => executeSql stmt sql dbc

end FrostlakeOdbc
