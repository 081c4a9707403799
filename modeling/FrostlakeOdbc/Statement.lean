import FrostlakeOdbc.Attributes
import FrostlakeOdbc.Catalog

/-!
# Statement handles (`handles.c`, and what is left of `execute.c` and `results.c`)

Every call of the driver on a statement, and `StmtCall`, which is any of them. The statement and its
connection are passed along.
-/

namespace FrostlakeOdbc

open CString Exchange

/-! ## Allocating and freeing -/

/-- `alloc_stmt`. -/
def allocStmt (dbc : Dbc) : Except Diag Stmt :=
  if !dbc.connected then .error (flDiagSet "08003" (lit "Connection not open")) else .ok freshStmt

/-- The options of `SQLFreeStmt`. -/
inductive FreeOption : Type where
  | close
  | unbind
  | resetParams
  | drop
  | other
  deriving DecidableEq

/-- `SQLFreeStmt`; without a statement it is freed. -/
def sqlFreeStmt (option : FreeOption) (stmt : Stmt) : SqlReturn × Option Stmt :=
  match option with
  | .close => (.success, some (flStmtClearResults stmt))
  | .unbind => (.success, some { stmt with boundCols := [] })
  | .resetParams => (.success, some { stmt with params := [] })
  | .drop => (.success, none)
  | .other => (.error (flDiagSet "HY092" (lit "Invalid SQLFreeStmt option")), some stmt)

/-- `SQLCloseCursor`. -/
def sqlCloseCursor (stmt : Stmt) : SqlReturn × Stmt := (.success, flStmtClearResults stmt)

/-- `SQLCancel`: a statement that runs has returned before anyone can call it. -/
def sqlCancel (stmt : Stmt) : SqlReturn × Stmt := (.success, stmt)

/-! ## Parameters -/

/-- The value a parameter is bound to, under the C type it is bound as. -/
inductive ParamValue : Type where
  /-- `SQL_C_DEFAULT`. -/
  | default (memory : Bytes)
  | typed (value : CValue)

/-- A parameter bound as `SQL_C_DEFAULT` is read as `SQL_C_CHAR`. -/
def ParamValue.value : ParamValue → CValue
  | .default memory => .char memory
  | .typed value => value

/-- A parameter nobody bound. -/
def unboundParam : BoundParam := ⟨false, .other 0, none, none⟩

/-- `SQLBindParameter`. -/
def sqlBindParameter (stmt : Stmt) (number : UInt16) (isInput : Bool) (sqlType : SqlType)
    (buffer : Option ParamValue) (strLenOrInd : Option ℤ) : SqlReturn × Stmt :=
  if !isInput then (.error (flDiagSet "HYC00" (lit "Only input parameters are supported")), stmt)
  else if number.toNat < 1 then (.error (flDiagSet "07009" (lit "Invalid parameter number")), stmt)
  else
    let grown := stmt.params ++ List.replicate (number.toNat - stmt.params.length) unboundParam
    let param : BoundParam := ⟨true, sqlType, buffer.map ParamValue.value, strLenOrInd⟩
    (.success, { stmt with params := grown.set (number.toNat - 1) param })

/-- What the application writes to the buffers a parameter is bound to. -/
def fillParam (stmt : Stmt) (number : UInt16) (value : CValue) (strLenOrInd : ℤ) : Stmt :=
  let fill (param : BoundParam) : BoundParam :=
    { param with
      buffer := param.buffer.map fun _ => value
      strLenOrInd := param.strLenOrInd.map fun _ => strLenOrInd }
  if number.toNat < 1 then stmt
  else { stmt with params := stmt.params.modify (number.toNat - 1) fill }

/-- `SQLNumParams`; the count is brought into a `SQLSMALLINT`. -/
def sqlNumParams (stmt : Stmt) : ℤ :=
  (((stmt.preparedSql.map countPlaceholders).getD 0 : ℕ) : ℤ).bmod (2 ^ 16)

/-! ## Results -/

/-- `SQLRowCount`. -/
def sqlRowCount (stmt : Stmt) : ℤ := stmt.rowCount

/-- `SQLNumResultCols`; the count is brought into a `SQLSMALLINT`. -/
def sqlNumResultCols (stmt : Stmt) : ℤ :=
  (((flStmtCurrentSet stmt).map ResultSet.columnCount).getD 0).bmod (2 ^ 16)

/-- `SQLFetchScroll`. -/
def sqlFetchScroll (beyond : Behind) (stmt : Stmt) (next : Bool) : Fetched × Stmt :=
  if !next then
    ({ ret := .error (flDiagSet "HY106" (lit "Only SQL_FETCH_NEXT is supported")) }, stmt)
  else sqlFetch beyond stmt

/-! ## Attributes -/

/-- The attributes of a statement that are told apart. -/
inductive StmtAttr : Type where
  | maxRows
  | multiStatementCount
  | rowsFetchedPtr
  | rowStatusPtr
  | rowArraySize
  | rowsetSize
  | cursorType
  | cursorScrollable
  | concurrency
  | queryTimeout
  | rowBindType
  | retrieveData
  | rowNumber
  /-- `SQL_ATTR_APP_ROW_DESC` and the other three descriptors. -/
  | descriptor
  /-- The others that are accepted as no-ops. -/
  | ignored
  | other (code : Int32)
  deriving DecidableEq

/-- The number of `SQL_ATTR_ROW_NUMBER`. -/
def sqlAttrRowNumber : ℤ := 14

def sqlCursorForwardOnly : ℕ := 0

def sqlNonscrollable : ℕ := 0

def sqlConcurReadOnly : ℕ := 1

def sqlBindByColumn : ℕ := 0

def sqlRdOn : ℕ := 1

/-- `fl_diag_warn`. -/
def flDiagWarn (sqlstate : String) (message : Bytes) : SqlReturn :=
  .successWithInfo (flDiagSet sqlstate message)

/-- An attribute of one value: every other is answered with `otherwise`. -/
def onlyValue (value : UInt64) (supported : ℕ) (otherwise : SqlReturn) (stmt : Stmt) :
    SqlReturn × Stmt :=
  if value.toNat = supported then (.success, stmt) else (otherwise, stmt)

def unsupportedAttribute (code : ℤ) : SqlReturn :=
  .error (flDiagSet "HY092" (lit "Unsupported statement attribute " ++ intText code))

/-- `SQLSetStmtAttr`, of the pointer as a number. -/
def sqlSetStmtAttr (stmt : Stmt) (attr : StmtAttr) (value : UInt64) : SqlReturn × Stmt :=
  match attr with
  | .maxRows => setMaxRows stmt value.toNat
  | .multiStatementCount =>
      let count := value.toInt64.toInt
      if count < -1 then
        (.error (flDiagSet "HY024" (lit ("SQL_SF_STMT_ATTR_MULTI_STATEMENT_COUNT must be -1, 0, or " ++
          "a statement count"))), stmt)
      else (.success, { stmt with multiStatementCount := count })
  | .rowsFetchedPtr => (.success, { stmt with rowsFetchedPtr := value ≠ 0 })
  | .rowStatusPtr => (.success, { stmt with rowStatusPtr := value ≠ 0 })
  | .rowArraySize | .rowsetSize =>
      onlyValue value 1 (.error (flDiagSet "HYC00" (lit ("Row-wise array fetching is not supported; " ++
        "SQL_ATTR_ROW_ARRAY_SIZE must be 1")))) stmt
  | .cursorType =>
      onlyValue value sqlCursorForwardOnly
        (flDiagWarn "01S02" (lit "Cursor type changed to forward-only")) stmt
  | .cursorScrollable =>
      onlyValue value sqlNonscrollable (flDiagWarn "01S02" (lit "Cursor changed to non-scrollable")) stmt
  | .concurrency =>
      onlyValue value sqlConcurReadOnly
        (flDiagWarn "01S02" (lit "Concurrency changed to read-only")) stmt
  | .queryTimeout =>
      onlyValue value 0 (flDiagWarn "01S02"
        (lit "Per-statement query timeout is not supported; changed to 0")) stmt
  | .rowBindType =>
      onlyValue value sqlBindByColumn
        (.error (flDiagSet "HYC00" (lit "Only column-wise binding is supported"))) stmt
  | .retrieveData =>
      onlyValue value sqlRdOn
        (.error (flDiagSet "HYC00" (lit "SQL_ATTR_RETRIEVE_DATA cannot be turned off"))) stmt
  | .descriptor | .ignored => (.success, stmt)
  | .rowNumber => (unsupportedAttribute sqlAttrRowNumber, stmt)
  | .other code => (unsupportedAttribute code.toInt, stmt)

/-- What `SQLGetStmtAttr` writes: a number, or the statement itself as a token. -/
inductive StmtAttrValue : Type where
  | number (value : ℤ)
  | statement
  deriving DecidableEq

/-- `SQLGetStmtAttr`, of a pointer that is not `NULL`. -/
def sqlGetStmtAttr (stmt : Stmt) : StmtAttr → StmtAttrValue
  | .multiStatementCount => .number stmt.multiStatementCount
  | .cursorType => .number sqlCursorForwardOnly
  | .concurrency => .number sqlConcurReadOnly
  | .rowArraySize => .number 1
  | .rowNumber => .number (if 0 ≤ stmt.currentRow then stmt.currentRow + 1 else 0)
  | .descriptor => .statement
  | _ => .number 0

/-! ## Any call on a statement -/

/-- A call of the application on a statement, or what it writes to a bound parameter in between. What
lies in memory behind the cells comes with the calls that read them. -/
inductive StmtCall : Type where
  | execDirect (text : Bytes) (length : ℤ)
  | prepare (text : Bytes) (length : ℤ)
  | execute
  | bindParameter (number : UInt16) (isInput : Bool) (sqlType : SqlType) (buffer : Option ParamValue)
      (strLenOrInd : Option ℤ)
  | fillParam (number : UInt16) (value : CValue) (strLenOrInd : ℤ)
  | numParams
  | rowCount
  | numResultCols
  | describeCol (number : UInt16) (columnName : Bool) (bufferLength : Int16) (nameLengthPtr : Bool)
  | colAttribute (number : UInt16) (field : ColumnField) (characterAttributePtr : Bool)
      (bufferLength : Int16) (stringLengthPtr : Bool)
  | bindCol (number : UInt16) (target : Target)
  | fetch (beyond : Behind)
  | fetchScroll (beyond : Behind) (next : Bool)
  | getData (beyond : Behind) (number : UInt16) (target : Target)
  | moreResults
  | closeCursor
  | cancel
  /-- `SQLFreeStmt`, but for `SQL_DROP`. -/
  | freeStmt (option : FreeOption) (kept : option ≠ .drop)
  | setStmtAttr (attr : StmtAttr) (value : UInt64)
  | getStmtAttr (attr : StmtAttr)
  | tables (catalogName schemaName tableName tableType : CatalogArg)
  | columns (catalogName schemaName tableName columnName : CatalogArg)
  | getTypeInfo (dataType : Int16)
  | statistics
  | specialColumns
  | primaryKeys

/-- What a call hands back. -/
inductive StmtAnswer : Type where
  | returned (ret : SqlReturn)
  | number (value : ℤ)
  | description (result : Except Diag ColumnDescription)
  | columnAttribute (value : AttributeValue)
  | stmtAttribute (value : StmtAttrValue)
  | fetched (fetched : Fetched)
  | data (got : GotData)

/-- What a call that fails or succeeds returns. -/
def returnOf : Except Diag Unit → SqlReturn
  | .ok () => .success
  | .error diag => .error diag

/-- A call that sends requests, as a call on a statement. -/
def exchanged (p : Call (Except Diag Unit × Stmt × Dbc)) : Call (StmtAnswer × Stmt × Dbc) :=
  (fun (result, stmt, dbc) => (.returned (returnOf result), stmt, dbc)) <$> p

/-- A call that sends nothing, with what it returns. -/
def localReturn (dbc : Dbc) (result : SqlReturn × Stmt) : Call (StmtAnswer × Stmt × Dbc) :=
  return (.returned result.1, result.2, dbc)

/-- What a call does. -/
def StmtCall.run (stmt : Stmt) (dbc : Dbc) : StmtCall → Call (StmtAnswer × Stmt × Dbc)
  | .execDirect text length => exchanged (sqlExecDirect stmt text length dbc)
  | .prepare text length => localReturn dbc (.success, sqlPrepare stmt text length)
  | .execute => exchanged (sqlExecute stmt dbc)
  | .bindParameter number isInput sqlType buffer strLenOrInd =>
      localReturn dbc (sqlBindParameter stmt number isInput sqlType buffer strLenOrInd)
  | .fillParam number value strLenOrInd =>
      localReturn dbc (.success, FrostlakeOdbc.fillParam stmt number value strLenOrInd)
  | .numParams => return (.number (sqlNumParams stmt), stmt, dbc)
  | .rowCount => return (.number (sqlRowCount stmt), stmt, dbc)
  | .numResultCols => return (.number (sqlNumResultCols stmt), stmt, dbc)
  | .describeCol number columnName bufferLength nameLengthPtr =>
      return (.description (sqlDescribeCol stmt number columnName bufferLength nameLengthPtr), stmt, dbc)
  | .colAttribute number field characterAttributePtr bufferLength stringLengthPtr =>
      return (.columnAttribute (sqlColAttribute stmt number field characterAttributePtr
        bufferLength stringLengthPtr), stmt, dbc)
  | .bindCol number target => localReturn dbc (sqlBindCol stmt number target)
  | .fetch beyond =>
      let (fetched, stmt) := sqlFetch beyond stmt
      return (.fetched fetched, stmt, dbc)
  | .fetchScroll beyond next =>
      let (fetched, stmt) := sqlFetchScroll beyond stmt next
      return (.fetched fetched, stmt, dbc)
  | .getData beyond number target =>
      let (got, stmt) := sqlGetData beyond stmt number target
      return (.data got, stmt, dbc)
  | .moreResults => localReturn dbc (sqlMoreResults stmt)
  | .closeCursor => localReturn dbc (sqlCloseCursor stmt)
  | .cancel => localReturn dbc (sqlCancel stmt)
  | .freeStmt option _ =>
      let (ret, left) := sqlFreeStmt option stmt
      localReturn dbc (ret, left.getD stmt)
  | .setStmtAttr attr value => localReturn dbc (sqlSetStmtAttr stmt attr value)
  | .getStmtAttr attr => return (.stmtAttribute (sqlGetStmtAttr stmt attr), stmt, dbc)
  | .tables catalogName schemaName tableName tableType =>
      exchanged (sqlTables catalogName schemaName tableName tableType stmt dbc)
  | .columns catalogName schemaName tableName columnName =>
      exchanged (sqlColumns catalogName schemaName tableName columnName stmt dbc)
  | .getTypeInfo dataType => localReturn dbc (sqlGetTypeInfo dataType stmt)
  | .statistics => localReturn dbc (sqlStatistics stmt)
  | .specialColumns => localReturn dbc (sqlSpecialColumns stmt)
  | .primaryKeys => localReturn dbc (sqlPrimaryKeys stmt)

end FrostlakeOdbc
