import FrostlakeOdbc.Connect
import FrostlakeOdbc.Results

/-!
# Texts that are handed back (`fl_copy_string`)

`SQLDescribeCol` and `SQLColAttribute` of `results.c`, `SQLGetConnectAttr`, `SQLGetInfo` and the end
of `SQLDriverConnect` of `connect.c`. What a call writes to the other pointers it writes to those that
are not `NULL`.
-/

namespace FrostlakeOdbc

open CString

/-! ## Copies -/

/-- What `fl_copy_string` does: what it returns, what it writes from the start of the buffer on, and the
length it reports, if it is to. -/
structure CopiedString where
  ret : SqlReturn
  written : Bytes
  reported : Option ℤ

/-- `fl_copy_string`, on the handle that is called. `buffer` and `outLength` tell which of the two
pointers are not `NULL`. -/
def flCopyString (value : Option Bytes) (buffer : Bool) (bufferLength : Int16) (outLength : Bool) :
    CopiedString :=
  let value := value.getD []
  let size := bufferLength.toInt
  let reported := if outLength then some (Int16.ofNat value.length).toInt else none
  if !buffer ∨ size ≤ 0 then ⟨.success, [], reported⟩
  else if value.length < size.toNat then ⟨.success, value ++ [0], reported⟩
  else ⟨.successWithInfo truncated, value.take (size.toNat - 1) ++ [0], reported⟩

/-! ## Columns -/

def sqlNullableUnknown : ℤ := 2

structure ColumnDescription where
  name : CopiedString
  dataType : ℤ
  columnSize : ℤ
  decimalDigits : ℤ
  nullable : ℤ

def invalidColumn : Diag := flDiagSet "07009" (lit "Invalid column number")

/-- `SQLDescribeCol`. -/
def sqlDescribeCol (stmt : Stmt) (columnNumber : UInt16) (columnName : Bool) (bufferLength : Int16)
    (nameLengthPtr : Bool) : Except Diag ColumnDescription :=
  match (flStmtCurrentSet stmt).bind (columnAt · columnNumber) with
  | none => .error invalidColumn
  | some column =>
      let (size, digits) := flTypeDisplaySize column
      .ok
        { name := flCopyString (some column.name) columnName bufferLength nameLengthPtr
          dataType := column.sqlType.code
          columnSize := size
          decimalDigits := digits
          nullable := sqlNullableUnknown }

/-- The fields of a column that `SQLColAttribute` tells apart. -/
inductive ColumnField : Type where
  | count
  | name
  | label
  | baseColumnName
  | typeName
  | baseTableName
  | tableName
  | schemaName
  | catalogName
  | literalPrefix
  | literalSuffix
  | localTypeName
  | type
  | conciseType
  | length
  | displaySize
  | octetLength
  | precision
  | scale
  | nullable
  | unsigned
  | autoUniqueValue
  | caseSensitive
  | fixedPrecScale
  | searchable
  | updatable
  | unnamed
  | numPrecRadix
  | other

/-- What a call on an attribute hands back. -/
inductive AttributeValue : Type where
  | text (copied : CopiedString)
  | number (value : ℤ)
  | error (diag : Diag)

/-- `SQL_DATETIME`, the verbose type of the temporal types. -/
def sqlDatetime : ℤ := 9

def sqlPredSearchable : ℤ := 3

/-- The text of a field, if it is one of those with a text. -/
def ColumnField.text (column : Column) : ColumnField → Option Bytes
  | .name | .label | .baseColumnName => some column.name
  | .typeName => some (column.typeName.getD (lit "VARCHAR"))
  | .baseTableName | .tableName | .schemaName | .catalogName | .literalPrefix | .literalSuffix
  | .localTypeName => some []
  | _ => none

/-- The number of a field. -/
def ColumnField.number (column : Column) : ColumnField → ℤ
  | .type => if column.sqlType.datetimeSub.isSome then sqlDatetime else column.sqlType.code
  | .conciseType => column.sqlType.code
  | .length | .displaySize | .octetLength | .precision => (flTypeDisplaySize column).1
  | .scale => (flTypeDisplaySize column).2
  | .nullable => sqlNullableUnknown
  | .searchable => sqlPredSearchable
  | .unnamed => if column.name = [] then 1 else 0
  | .numPrecRadix =>
      match column.sqlType with
      | .double => 2
      | .decimal | .bigint | .integer => 10
      | _ => 0
  | _ => 0

/-- `SQLColAttribute`. -/
def sqlColAttribute (stmt : Stmt) (columnNumber : UInt16) (field : ColumnField)
    (characterAttributePtr : Bool) (bufferLength : Int16) (stringLengthPtr : Bool) : AttributeValue :=
  match field with
  | .count => .number (((flStmtCurrentSet stmt).map ResultSet.columnCount).getD 0)
  | field =>
      match (flStmtCurrentSet stmt).bind (columnAt · columnNumber) with
      | none => .error invalidColumn
      | some column =>
          match field.text column with
          | some text => .text (flCopyString (some text) characterAttributePtr bufferLength stringLengthPtr)
          | none => .number (field.number column)

/-! ## The connection -/

/-- The attributes `SQLGetConnectAttr` answers. -/
inductive ConnectAttribute : Type where
  | autocommit
  | connectionDead
  | loginTimeout
  | connectionTimeout
  | currentCatalog
  | txnIsolation
  | other

def sqlTxnReadCommitted : ℤ := 2

/-- `SQLGetConnectAttr`. The length of the buffer is narrowed on the way, and so is the one reported. -/
def sqlGetConnectAttr (dbc : Dbc) (attr : ConnectAttribute) (valuePtr : Bool)
    (bufferLength : Int32) (stringLengthPtr : Bool) : AttributeValue :=
  match attr with
  | .autocommit => .number (if dbc.autocommit then 1 else 0)
  | .connectionDead => .number (if dbc.connected then 0 else 1)
  | .loginTimeout | .connectionTimeout => .number dbc.loginTimeout
  | .currentCatalog =>
      let copied := flCopyString dbc.database valuePtr bufferLength.toInt16 true
      .text { copied with reported := if stringLengthPtr then copied.reported else none }
  | .txnIsolation => .number sqlTxnReadCommitted
  | .other => .error (flDiagSet "HY092" (lit "Unsupported connection attribute"))

/-- The end of `SQLDriverConnect`: what it hands back of its connection string `out`. What
`fl_copy_string` returns is dropped. -/
def driverConnectOut (out : Bytes) (outConnectionString : Bool) (bufferLength : Int16)
    (stringLength2Ptr : Bool) : CopiedString :=
  if outConnectionString then
    let copied := flCopyString (some out) true bufferLength true
    { copied with
      ret := .success
      reported := if stringLength2Ptr then copied.reported else none }
  else ⟨.success, [], if stringLength2Ptr then some 0 else none⟩

/-- The types of `SQLGetInfo`. Those of a number are given as the number their entry has. -/
inductive InfoType : Type where
  | driverName
  | driverVer
  | driverOdbcVer
  | dbmsName
  | dbmsVer
  | identifierQuoteChar
  | searchPatternEscape
  | catalogNameSeparator
  | catalogTerm
  | schemaTerm
  | tableTerm
  | procedureTerm
  | catalogName
  | accessibleTables
  | accessibleProcedures
  | columnAlias
  | expressionsInOrderby
  | likeEscapeClause
  | orderByColumnsInSelect
  | outerJoins
  | procedures
  | rowUpdates
  | keywords
  | specialCharacters
  | maxRowSizeIncludesLong
  | multResultSets
  | multipleActiveTxn
  | needLongDataLen
  | describeParameter
  | dataSourceReadOnly
  | databaseName
  | dataSourceName
  | serverName
  | userName
  | u16 (numericValue : UInt16)
  | u32 (numericValue : UInt32)
  | other (infoType : UInt16)

/-- An entry of the table of `SQLGetInfo`, or what stands for a type that has none. -/
inductive InfoEntry : Type where
  | string (value : Bytes)
  | u16 (numericValue : UInt16)
  | u32 (numericValue : UInt32)
  | unsupported (infoType : UInt16)

/-- The entry of a type, with the text of the connection where the table has none. -/
def InfoType.entry (dbc : Dbc) : InfoType → InfoEntry
  | .driverName => .string (lit "libfrostlakeodbc.so")
  | .driverVer => .string (lit "01.02.0001")
  | .driverOdbcVer => .string (lit "03.51")
  | .dbmsName => .string (lit "Frostlake")
  | .dbmsVer => .string (lit "01.00.0000")
  | .identifierQuoteChar => .string (lit "\"")
  | .searchPatternEscape => .string (lit "\\")
  | .catalogNameSeparator => .string (lit ".")
  | .catalogTerm => .string (lit "database")
  | .schemaTerm => .string (lit "schema")
  | .tableTerm => .string (lit "table")
  | .procedureTerm => .string (lit "procedure")
  | .catalogName | .accessibleTables | .accessibleProcedures | .columnAlias | .expressionsInOrderby
  | .likeEscapeClause | .outerJoins | .procedures | .maxRowSizeIncludesLong | .multResultSets
  | .multipleActiveTxn => .string (lit "Y")
  | .orderByColumnsInSelect | .rowUpdates | .needLongDataLen | .describeParameter
  | .dataSourceReadOnly => .string (lit "N")
  | .keywords | .specialCharacters | .userName => .string []
  | .databaseName => .string (dbc.database.getD [])
  | .dataSourceName => .string (dbc.dsn.getD [])
  | .serverName => .string (dbc.host.getD [])
  | .u16 value => .u16 value
  | .u32 value => .u32 value
  | .other code => .unsupported code

/-- What `SQLGetInfo` hands back; a number comes with its size as the length. -/
inductive InfoValue : Type where
  | text (copied : CopiedString)
  | number (value : ℕ) (size : ℕ)
  | error (diag : Diag)

/-- `SQLGetInfo`. -/
def sqlGetInfo (dbc : Dbc) (infoType : InfoType) (infoValuePtr : Bool) (bufferLength : Int16)
    (stringLengthPtr : Bool) : InfoValue :=
  match infoType.entry dbc with
  | .string value => .text (flCopyString (some value) infoValuePtr bufferLength stringLengthPtr)
  | .u16 value => .number value.toNat 2
  | .u32 value => .number value.toNat 4
  | .unsupported code =>
      .error (flDiagSet "HY096" (lit "Unsupported SQLGetInfo type " ++ intText code.toNat))

end FrostlakeOdbc
