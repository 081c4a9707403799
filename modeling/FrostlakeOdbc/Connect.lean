import FrostlakeOdbc.Execute

/-!
# Connections (`connect.c`)

Opening and closing a connection, ending its transactions and setting its attributes. The driver
manager's ini file is a parameter.
-/

namespace FrostlakeOdbc

open CString Exchange

/-- What a call on a connection answers. -/
abbrev ConnectResult := Except Diag Unit × Dbc

/-! ## Connection strings -/

/-- The loop of `conn_str_get`. -/
def connStrGetFrom : ℕ → Bytes → Bytes → Option Bytes
  | 0, _, _ => none
  | _ + 1, [], _ => none
  | fuel + 1, c :: rest, key =>
      let cur := (c :: rest).dropWhile fun c => c = ch ';' || c = ch ' '
      match cur.dropWhile (· ≠ ch '=') with
      | [] => none
      | _ :: value =>
          let thisKey := cur.takeWhile (· ≠ ch '=')
          let braced := value.head? = some (ch '\x7b')
          let value := if braced then value.drop 1 else value
          let close := if braced then ch '\x7d' else ch ';'
          let stop := value.dropWhile (· ≠ close)
          if thisKey.length = key.length ∧ strncaseeq thisKey key key.length then
            some (value.takeWhile (· ≠ close))
          else
            let next := if stop.head? = some (ch '\x7d') then stop.dropWhile (· ≠ ch ';') else stop
            connStrGetFrom fuel (if next.head? = some (ch ';') then next.drop 1 else next) key

/-- `conn_str_get`: the value of a key of a connection string. -/
def connStrGet (conn : Bytes) (key : String) : Option Bytes :=
  connStrGetFrom conn.length conn (lit key)

/-- The driver manager's ini file: the text of a key in a section, empty where there is none. -/
abbrev IniFile := Bytes → Bytes → Bytes

/-- `dsn_get`. -/
def dsnGet (ini : IniFile) (dsn : Bytes) (key : String) : Option Bytes :=
  let value := snprintf 512 (cstr (ini dsn (lit key)))
  if value = [] then none else some value

/-- The digits of `parse_port`, after the ones that make `value`. -/
def parsePortFrom (value : ℕ) : Bytes → Option ℕ
  | [] => some value
  | c :: rest =>
      if !isDigit c then none
      else
        let value := value * 10 + (c.toNat - 48)
        if 65535 < value then none else parsePortFrom value rest

/-- `parse_port`. -/
def parsePort (text : Bytes) : Option ℤ :=
  let text := trimBlanks text
  if text = [] then none
  else (parsePortFrom 0 text).bind fun value => if 1 ≤ value then some (value : ℤ) else none

/-- What a connection string or a DSN names. -/
structure Named where
  dsn : Option Bytes
  server : Option Bytes
  port : Option Bytes
  database : Option Bytes
  schema : Option Bytes

/-- The keys of a connection string, which override the attributes of the DSN it names. -/
def driverConnectNames (ini : IniFile) (conn : Bytes) : Named :=
  let dsn := connStrGet conn "DSN"
  let get (key : String) : Option Bytes :=
    (connStrGet conn key).or (dsn.bind fun dsn => dsnGet ini dsn key)
  { dsn := dsn
    server := get "Server"
    port := get "Port"
    database := get "Database"
    schema := get "Schema" }

/-- The attributes of a DSN. -/
def connectNames (ini : IniFile) (dsn : Bytes) : Named :=
  { dsn := some dsn
    server := dsnGet ini dsn "Server"
    port := dsnGet ini dsn "Port"
    database := dsnGet ini dsn "Database"
    schema := dsnGet ini dsn "Schema" }

/-- A text with a length or `SQL_NTS` as it is copied to a buffer of `size` bytes, read as a C
string. -/
def copyText (size : ℕ) (memory : Bytes) (length : ℤ) : Bytes :=
  let text := if length = sqlNts then cstr memory
    else if length < 0 then memory else memory.take length.toNat
  cstr (snprintf size text)

/-! ## Connecting -/

/-- `p`, and where it succeeds `k`. -/
def onSuccess (p : Call ConnectResult) (k : Dbc → Call ConnectResult) : Call ConnectResult := do
  let (outcome, dbc) ← p
  match outcome with
  | .ok () => k dbc
  | .error diag => return (.error diag, dbc)

/-- A statement of the scope as `do_connect` executes it. `linkState` is the SQLSTATE for a failure of
the transport. A failure closes the connection. -/
def connectExecute (sql : Bytes) (linkState : String) (dbc : Dbc) : Call ConnectResult := do
  let (result, dbc) ← flProtoExecuteAs dbc sql (-1) { tracked := false, recover := false }
  match result with
  | .error e => do
      let dbc ← flProtoRelease { dbc with connected := false }
      return (.error (flDiagSet linkState e.text), dbc)
  | .ok response =>
      match response.errorMessage with
      | some message => do
          let dbc ← flProtoRelease { dbc with connected := false }
          return (.error (flDiagSet "08004" message), dbc)
      | none => return (.ok (), dbc)

/-- The working database, picked up front. -/
def connectDatabase (database : Option Bytes) (dbc : Dbc) : Call ConnectResult :=
  if hasName database then
    onSuccess (connectExecute (useDatabase (database.getD [])) "08001" dbc) fun dbc =>
      return (.ok (), { dbc with database := database })
  else return (.ok (), dbc)

/-- The working schema. -/
def connectSchema (schema : Option Bytes) (dbc : Dbc) : Call ConnectResult :=
  if hasName schema then
    onSuccess (connectExecute (useSchema (schema.getD [])) "08004" dbc) fun dbc =>
      return (.ok (), { dbc with schema := schema })
  else return (.ok (), dbc)

/-- `SQL_ATTR_AUTOCOMMIT` turned off before connecting. -/
def connectAutocommit (dbc : Dbc) : Call ConnectResult :=
  if !dbc.autocommit then connectExecute autocommitOff "08001" dbc else return (.ok (), dbc)

/-- The connection as `do_connect` opens it, with the scope the DSN names. -/
def openDbc (database schema : Option Bytes) (dbc : Dbc) : Dbc :=
  { flProtoSessionReset { dbc with connected := true } with
    scopeDatabase := if hasName database then database else none
    scopeSchema := if hasName schema then schema else none }

/-- `do_connect`. -/
def doConnect (database schema : Option Bytes) (dbc : Dbc) : Call ConnectResult := do
  let dbc := { dbc with host := some (dbc.host.getD (lit "localhost")) }
  let place := dbc.host.getD [] ++ lit ":" ++ intText dbc.port
  let reply ← Client.call (.get dbc (lit "/api/health") dbc.loginTimeout)
  match reply with
  | .failed message =>
      return (.error (flDiagSet "08001"
        (lit "Cannot reach Frostlake server at " ++ place ++ lit " (" ++ message ++ lit ")")), dbc)
  | .answered status _ =>
      if status ≠ 200 then
        return (.error (flDiagSet "08001" (lit "Frostlake server at " ++ place ++
          lit " answered HTTP " ++ intText status ++ lit " to the health probe")), dbc)
      else
        onSuccess (onSuccess (connectDatabase database (openDbc database schema dbc))
          (connectSchema schema)) connectAutocommit

/-- The part of `SQLConnect` and `SQLDriverConnect` from the names on. -/
def connectNamed (names : Named) (portMessage : String) (dbc : Dbc) : Call ConnectResult :=
  let dbc := { dbc with
    dsn := names.dsn.or dbc.dsn
    host := some (names.server.getD (lit "localhost")) }
  match names.port with
  | none => doConnect names.database names.schema dbc
  | some port =>
      match parsePort port with
      | none => return (.error (flDiagSet "HY000" (lit portMessage ++ port ++ lit "'")), dbc)
      | some parsed => doConnect names.database names.schema { dbc with port := parsed }

def alreadyOpen : Diag := flDiagSet "08002" (lit "Connection already open")

/-- `SQLConnect`. -/
def sqlConnect (ini : IniFile) (serverName : Bytes) (length : ℤ) (dbc : Dbc) : Call ConnectResult :=
  if dbc.connected then return (.error alreadyOpen, dbc)
  else connectNamed (connectNames ini (copyText 256 serverName length))
    "DSN attribute Port must be a number from 1 to 65535, got '" dbc

/-- The connection string `SQLDriverConnect` hands back. -/
def outConnectionString (names : Named) (dbc : Dbc) : Bytes :=
  let option (key : String) (value : Option Bytes) : Bytes :=
    match value with
    | some value => lit key ++ value
    | none => []
  snprintf 2048 (lit "Driver=\x7bFrostlake ODBC Driver\x7d;Server=" ++ dbc.host.getD [] ++
    lit ";Port=" ++ intText dbc.port ++ option ";Database=" names.database ++
    option ";Schema=" names.schema)

/-- `SQLDriverConnect`: a success comes with a connection string. -/
def sqlDriverConnect (ini : IniFile) (inConnectionString : Bytes) (length : ℤ) (dbc : Dbc) :
    Call (Except Diag Bytes × Dbc) :=
  if dbc.connected then return (.error alreadyOpen, dbc)
  else do
    let names := driverConnectNames ini (copyText 2048 inConnectionString length)
    let (outcome, dbc) ←
      connectNamed names "Port must be a number from 1 to 65535, got '" dbc
    return (outcome.map fun _ => outConnectionString names dbc, dbc)

/-- `SQLDisconnect`. -/
def sqlDisconnect (dbc : Dbc) : Call ConnectResult :=
  if !dbc.connected then return (.error (flDiagSet "08003" (lit "Connection not open")), dbc)
  else do
    let dbc ← flProtoRelease { dbc with connected := false }
    return (.ok (), dbc)

/-! ## Transactions -/

/-- What a call makes of its statement: the SQLSTATEs are those of a transport failure and of a
refusal. -/
def reportResult (linkState refusedState : String) (result : Result) : Except Diag Unit :=
  match result with
  | .error e => .error (flDiagSet linkState e.text)
  | .ok response =>
      match response.errorMessage with
      | some message => .error (flDiagSet refusedState message)
      | none => .ok ()

/-- `SQLEndTran` on a connection. -/
def sqlEndTran (commit : Bool) (dbc : Dbc) : Call ConnectResult :=
  if !dbc.connected then return (.error (flDiagSet "08003" (lit "Connection not open")), dbc)
  else do
    let (result, dbc) ← flProtoExecute dbc (if commit then lit "COMMIT" else lit "ROLLBACK")
    return (reportResult "08S01" "25000" result, dbc)

/-! ## Attributes -/

/-- The attributes `SQLSetConnectAttr` acts on. The name of a catalog is the C string at `ValuePtr`:
`StringLength` is not looked at. -/
inductive ConnectAttr : Type where
  | autocommit (on : Bool)
  | loginTimeout (seconds : ℤ)
  | currentCatalog (name : Bytes)
  | other

/-- The statement that mirrors `SQL_ATTR_AUTOCOMMIT`. -/
def autocommitSql (wanted : Bool) : Bytes :=
  snprintf 64 (lit "ALTER SESSION SET AUTOCOMMIT = " ++ if wanted then lit "TRUE" else lit "FALSE")

/-- The `SQL_ATTR_AUTOCOMMIT` case of `SQLSetConnectAttr`. -/
def setAutocommit (wanted : Bool) (dbc : Dbc) : Call ConnectResult :=
  if dbc.connected && wanted ≠ dbc.autocommit then do
    let (result, dbc) ← flProtoExecuteAs dbc (autocommitSql wanted) (-1)
      { tracked := false, recover := true }
    match reportResult "08S01" "HY000" result with
    | .error diag => return (.error diag, dbc)
    | .ok () => return (.ok (), { dbc with autocommit := wanted })
  else return (.ok (), { dbc with autocommit := wanted })

/-- The `SQL_ATTR_CURRENT_CATALOG` case of `SQLSetConnectAttr`. -/
def setCurrentCatalog (name : Bytes) (dbc : Dbc) : Call ConnectResult :=
  if !dbc.connected then return (.ok (), { dbc with database := some name })
  else do
    let (result, dbc) ← flProtoExecute dbc (snprintf 600 (lit "USE DATABASE " ++ name))
    match reportResult "HY000" "HY000" result with
    | .error diag => return (.error diag, dbc)
    | .ok () => return (.ok (), { dbc with database := some name })

/-- `SQLSetConnectAttr`. -/
def sqlSetConnectAttr (attr : ConnectAttr) (dbc : Dbc) : Call ConnectResult :=
  match attr with
  | .autocommit wanted => setAutocommit wanted dbc
  | .loginTimeout seconds => return (.ok (), { dbc with loginTimeout := seconds })
  | .currentCatalog name => setCurrentCatalog name dbc
  | .other => return (.ok (), dbc)

/-! ## The life of a connection -/

/-- `run_catalog_query` of `catalog.c`. -/
def runCatalogQuery (sql : Bytes) (dbc : Dbc) : Call (Except Diag ResultSet × Dbc) := do
  let (result, dbc) ← flProtoExecute dbc sql
  match result with
  | .error e => return (.error (flDiagSet "08S01" e.text), dbc)
  | .ok response =>
      match response.errorMessage with
      | some message => return (.error (flDiagSet "42000" message), dbc)
      | none =>
          match response.sets with
          | set :: _ => return (.ok set, dbc)
          | [] => return (.error (flDiagSet "HY000" (lit "Catalog query returned no result set")), dbc)

/-- A call of the application on a connection or on one of its statements. -/
inductive ConnectionCall : Type where
  | execDirect (stmt : Stmt) (text : Bytes) (length : ℤ)
  | execute (stmt : Stmt)
  | catalogQuery (sql : Bytes)
  | endTran (commit : Bool)
  | setConnectAttr (attr : ConnectAttr)
  | disconnect

/-- What a call does to the connection. `alloc_stmt` asks for an open connection only when it makes a
statement, and `SQLDisconnect` frees none: that a closed connection has no statement to call is the
rule of ODBC, by which `SQLDisconnect` ends its statements. -/
def ConnectionCall.run (dbc : Dbc) : ConnectionCall → Call Dbc
  | .execDirect stmt text length =>
      if dbc.connected then (fun a => a.2.2) <$> sqlExecDirect stmt text length dbc else return dbc
  | .execute stmt => if dbc.connected then (fun a => a.2.2) <$> sqlExecute stmt dbc else return dbc
  | .catalogQuery sql => if dbc.connected then Prod.snd <$> runCatalogQuery sql dbc else return dbc
  | .endTran commit => Prod.snd <$> sqlEndTran commit dbc
  | .setConnectAttr attr => Prod.snd <$> sqlSetConnectAttr attr dbc
  | .disconnect => Prod.snd <$> sqlDisconnect dbc

/-- The calls after a connect, one after the other. -/
def runCalls : List ConnectionCall → Dbc → Call Dbc
  | [], dbc => return dbc
  | c :: calls, dbc => do
      let dbc ← c.run dbc
      runCalls calls dbc

/-- A connect, and where it succeeds the calls after it. -/
def connectAndRun (database schema : Option Bytes) (calls : List ConnectionCall) (dbc : Dbc) :
    Call Dbc := do
  let (outcome, dbc) ← doConnect database schema dbc
  match outcome with
  | .ok () => runCalls calls dbc
  | .error _ => return dbc

end FrostlakeOdbc
