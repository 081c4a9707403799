import FrostlakeOdbc.Lib.CString

/-!
# The driver's data (`fl_odbc.h`)

C strings are the bytes before their NUL, a `NULL` pointer is `none`, and a flag that only ever
holds 0 or 1 is a `Bool`.
-/

namespace FrostlakeOdbc

open CString

/-- The SQL types the driver tells apart. -/
inductive SqlType : Type where
  | varchar
  | varbinary
  | bit
  | tinyint
  | smallint
  | integer
  | bigint
  | decimal
  | numeric
  | real
  | float
  | double
  | typeDate
  | typeTime
  | typeTimestamp
  | other (code : ℤ)
  deriving DecidableEq

/-- One cell: text or SQL NULL, and the JSON shape it arrived as (`s`, `n` or `b`). -/
structure Cell where
  text : Option Bytes
  kind : Char
  isNull : Bool
  deriving DecidableEq

structure Column where
  name : Bytes
  typeName : Option Bytes
  sqlType : SqlType
  precision : ℤ
  scale : ℤ
  length : ℤ
  deriving DecidableEq

/-- A result set; its cells are row-major. -/
structure ResultSet where
  columns : List Column
  columnCount : ℤ
  cells : List Cell
  rowCount : ℤ
  deriving DecidableEq

/-- The decoded answer of the engine: every result set of an execution, in order. -/
structure Response where
  sets : List ResultSet
  sessionId : Option Bytes
  errorMessage : Option Bytes
  deriving DecidableEq

/-- The connection. -/
structure Dbc where
  connected : Bool
  host : Option Bytes
  port : ℤ
  /-- Assigned by the server on the first exchange. -/
  sessionId : Option Bytes
  database : Option Bytes
  schema : Option Bytes
  /-- The data source name. -/
  dsn : Option Bytes
  /-- `SQL_ATTR_AUTOCOMMIT`. -/
  autocommit : Bool
  loginTimeout : ℤ
  requestTimeout : ℤ
  /-- The scope the DSN named, which a fresh session is put back on. -/
  scopeDatabase : Option Bytes
  scopeSchema : Option Bytes
  /-- Whether the engine reports `newSession`: -1 until it is known, then 1 or 0. -/
  tracksSessions : ℤ
  /-- Whether an application statement left state on the session that a fresh one lacks. -/
  sessionDirty : Bool
  /-- Whether a transaction is open on the session. -/
  inTransaction : Bool
  /-- Whether the scope still has to go on before the next statement. -/
  scopePending : Bool
  deriving DecidableEq

/-- `alloc_dbc`: a connection as it is allocated. -/
def allocDbc : Dbc :=
  { connected := false
    host := none
    port := 18082
    sessionId := none
    database := none
    schema := none
    dsn := none
    autocommit := true
    loginTimeout := 10
    requestTimeout := 300
    scopeDatabase := none
    scopeSchema := none
    tracksSessions := -1
    sessionDirty := false
    inTransaction := false
    scopePending := false }

/-- `FL_EXEC_TRACKED` and `FL_EXEC_RECOVER`. -/
structure ExecFlags where
  tracked : Bool
  recover : Bool
  deriving DecidableEq

/-! ## Bound columns -/

/-- The C types a value is delivered as. -/
inductive CType : Type where
  | default
  | char
  | binary
  | slong
  | ulong
  | sshort
  | ushort
  | stinyint
  | tinyint
  | utinyint
  | sbigint
  | ubigint
  | float
  | double
  | bit
  | typeDate
  | typeTime
  | typeTimestamp
  | other (code : Int16)
  deriving DecidableEq

/-- Where a value is delivered: a buffer and an indicator, either of which may be `NULL`. -/
structure Target where
  cType : CType
  buffer : Bool
  bufferLength : ℤ
  strLenOrInd : Bool

/-- A column of a statement; what it was bound to outlives the binding. -/
structure BoundCol where
  target : Target
  bound : Bool

/-! ## Diagnostics -/

/-- `FL_MAX_DIAG_MSG`. -/
def flMaxDiagMsg : ℕ := 2048

/-- A diagnostic record: what a call that fails leaves on its handle. -/
structure Diag where
  sqlstate : Bytes
  message : Bytes
  deriving DecidableEq

/-- `fl_diag_set` and `fl_diag_setf`, of the text the arguments print as. -/
def flDiagSet (sqlstate : String) (message : Bytes) : Diag :=
  { sqlstate := lit sqlstate, message := snprintf flMaxDiagMsg message }

end FrostlakeOdbc
