import FrostlakeOdbc.Lib.Client
import FrostlakeOdbc.Json
import FrostlakeOdbc.Session
import FrostlakeOdbc.Util

/-!
# The protocol (`proto.c`)

A call of the driver is a `Client` of the server: it asks HTTP requests and goes on with whatever
the server answers. The connection is passed along explicitly. The allocations are taken to succeed.
-/

namespace FrostlakeOdbc

open CString JsonText Exchange

/-! ## Requests and answers -/

/-- The place of the source a statement is sent from: the statement `index` of the connection's
scope, or a statement executed with `flags`. The server does not see it. -/
inductive Origin : Type where
  | scope (index : ℕ)
  | statement (flags : ExecFlags)
  deriving DecidableEq

/-- One POST of a statement, with the connection it is sent over as it stands at that moment. -/
structure Post where
  origin : Origin
  dbc : Dbc
  sql : Bytes
  count : ℤ
  deriving DecidableEq

/-- `build_request_json`. The buffer the count is printed in is larger than any count. -/
def buildRequestJson (dbc : Dbc) (sql : Bytes) (count : ℤ) : Bytes :=
  let buf := lit "\x7b\"sql\":"
  let buf := flStrbufAppendJsonString buf sql
  let buf :=
    match dbc.sessionId with
    | some id =>
        let buf := flStrbufAppendJsonString (buf ++ lit ",\"sessionId\":") id
        if dbc.tracksSessions = 1 then buf ++ lit ",\"requireSession\":true" else buf
    | none => buf
  let buf :=
    if 0 ≤ count then buf ++ snprintf 48 (lit ",\"multiStatementCount\":" ++ intText count) else buf
  buf ++ lit ",\"autoCommit\":true\x7d"

/-- What the server is sent with a POST. -/
def Post.body (p : Post) : Bytes := buildRequestJson p.dbc p.sql p.count

inductive Request : Type where
  | post (p : Post)
  | get (dbc : Dbc) (path : Bytes) (timeout : ℤ)
  | delete (dbc : Dbc) (path : Bytes) (timeout : ℤ)
  deriving DecidableEq

/-- What `http_request` hands back: an error of its own, or a status and a body. -/
inductive HttpReply : Type where
  | failed (message : Bytes)
  | answered (status : ℤ) (body : Bytes)

/-- A call of the driver. -/
abbrev Call := Client Request HttpReply

/-! ## Result sets -/

/-- The count of a node's children, in an `int`. -/
def childCount (node : Option Value) : ℤ :=
  match node with
  | some (.array items) => toInt items.length
  | some (.object members) => toInt members.length
  | _ => 0

/-- One column of `decode_columns`. -/
def decodeColumn (columnJson : Option Value) : Column :=
  let typeName := flJsonGetString columnJson (lit "dataType")
  let scale := toInt (flJsonGetLong columnJson (lit "scale") 0)
  { name := (flJsonGetString columnJson (lit "name")).getD []
    typeName := typeName
    precision := toInt (flJsonGetLong columnJson (lit "precision") 0)
    scale := scale
    length := toInt (flJsonGetLong columnJson (lit "length") 0)
    sqlType := flSqlTypeFor typeName scale }

/-- `decode_columns`. -/
def decodeColumns (columnsJson : Option Value) : List Column :=
  (List.range (childCount columnsJson).toNat).map fun i => decodeColumn (flJsonAt columnsJson i)

/-- One cell of `decode_rows`, in a column of the given type. -/
def decodeCell (sqlType : SqlType) (value : Option Value) : Cell :=
  match value with
  | none => { text := none, kind := 's', isNull := true }
  | some .null => { text := none, kind := 's', isNull := true }
  | some (.number lexeme) => { text := some lexeme, kind := 'n', isNull := false }
  | some (.bool b) =>
      -- 1 and 0 are how a BIT reads; a boolean in any other column reads as the word
      let text := if sqlType = .bit then (if b then lit "1" else lit "0")
        else (if b then lit "true" else lit "false")
      { text := some text, kind := 'b', isNull := false }
  | some (.string text) => { text := some (cstr text), kind := 's', isNull := false }
  | some _ => { text := some [], kind := 's', isNull := false }

/-- `decode_rows`. -/
def decodeRows (rowsJson : Option Value) (columns : List Column) : List Cell :=
  (List.range (childCount rowsJson).toNat).flatMap fun r =>
    columns.mapIdx fun c column => decodeCell column.sqlType (flJsonAt (flJsonAt rowsJson r) c)

/-- One result set of `post`. -/
def decodeSet (setJson : Option Value) : ResultSet :=
  let columns := decodeColumns (flJsonGet setJson (lit "columns"))
  let rowsJson := flJsonGet setJson (lit "rows")
  { columns := columns
    columnCount := childCount (flJsonGet setJson (lit "columns"))
    cells := decodeRows rowsJson columns
    rowCount := childCount rowsJson }

/-- The decoded answer, as `post` builds it from the root of the body. -/
def decodeResponse (root : Value) : Response :=
  let sessionId := flJsonGetString (some root) (lit "sessionId")
  if !flJsonGetBool (some root) (lit "success") false then
    let message := (flJsonGetString (some root) (lit "errorMessage")).or
      (flJsonGetString (some root) (lit "error"))
    { sets := [], sessionId := sessionId
      errorMessage := some (message.getD (lit "unknown server error")) }
  else
    let setsJson := flJsonGet (some root) (lit "resultSets")
    { sets := (List.range (childCount setsJson).toNat).map fun i => decodeSet (flJsonAt setsJson i)
      sessionId := sessionId
      errorMessage := none }

/-! ## The session -/

/-- What a call fails with when there is no response to hand back. -/
inductive TransportError : Type where
  | http (message : Bytes)
  | unparseable (status : ℤ) (body : Bytes)
  | lostTransaction
  | lostContext
  | lostAgain
  deriving DecidableEq

/-- The text of `*transport_error`. -/
def TransportError.text : TransportError → Bytes
  | .http message => message
  | .unparseable status body =>
      lit "unparseable response (HTTP " ++ intText status ++ lit "): " ++ body.take 200
  | .lostTransaction => lit ("the engine no longer holds this connection's session (it expired, was " ++
      "released, or the server restarted), so its open transaction is gone; the statement did not run")
  | .lostContext => lit ("the engine no longer holds this connection's session (it expired, was " ++
      "released, or the server restarted), and the context set up on it (USE, SET, ALTER SESSION or a " ++
      "temporary object) went with it, so the statement was not run again; the next statement starts " ++
      "a fresh session on the connection's scope")
  | .lostAgain => lit "the engine refused a session it had just started; the statement did not run"

/-- The three errors that say the session was lost. -/
def TransportError.isLostSession : TransportError → Bool
  | .lostTransaction | .lostContext | .lostAgain => true
  | _ => false

/-- `reset_session_state`: back to what a fresh session holds. -/
def resetSessionState (dbc : Dbc) : Dbc :=
  { dbc with
    sessionDirty := false
    inTransaction := false
    scopePending := true
    database := dbc.scopeDatabase
    schema := dbc.scopeSchema }

/-- `forget_session`. -/
def forgetSession (dbc : Dbc) : Dbc := resetSessionState { dbc with sessionId := none }

/-- `fl_proto_session_reset`. -/
def flProtoSessionReset (dbc : Dbc) : Dbc :=
  { dbc with
    sessionId := none
    tracksSessions := -1
    sessionDirty := false
    inTransaction := false
    scopePending := false }

/-- `lose_session`: the error to report when the session held something a fresh one would not. -/
def loseSession (dbc : Dbc) : Option TransportError × Dbc :=
  if dbc.inTransaction || dbc.sessionDirty then
    (some (if dbc.inTransaction then .lostTransaction else .lostContext), forgetSession dbc)
  else (none, forgetSession dbc)

/-- The session an answer names; an empty name is no name. -/
def namedSession (root : Value) : Option Bytes :=
  match flJsonGetString (some root) (lit "sessionId") with
  | some (c :: rest) => some (c :: rest)
  | _ => none

/-- Whether an answer says its session was just started; `none` when it does not say. -/
def newSession (root : Value) : Option Bool :=
  match flJsonGet (some root) (lit "newSession") with
  | some (.bool started) => some started
  | _ => none

/-- `absorb_session`: takes in what an answer says of the session. -/
def absorbSession (dbc : Dbc) (root : Value) (sent : Bool) : Dbc :=
  match namedSession root with
  | none => dbc
  | some session =>
      let dbc := { dbc with sessionId := some session }
      match newSession root with
      | some started =>
          let dbc := { dbc with tracksSessions := 1 }
          if sent && started then resetSessionState dbc else dbc
      | none => if dbc.tracksSessions < 0 then { dbc with tracksSessions := 0 } else dbc

/-- What `post` answers: the engine does not hold the session, there is no response, or there is
one. -/
inductive Outcome : Type where
  | gone
  | failed (e : TransportError)
  | answered (response : Response)

/-- Whether an answer refuses the session the request named as one the engine does not hold. -/
def refusesSession (sent : Bool) (status : ℤ) (root : Value) : Bool :=
  sent && status = 404 && !flJsonGetBool (some root) (lit "success") false &&
    (namedSession root).isNone

/-- What `post` makes of the answer. -/
def readReply (dbc : Dbc) : HttpReply → Outcome × Dbc
  | .failed message => (.failed (.http message), dbc)
  | .answered status body =>
      match flJsonParse (cstr body) with
      | none => (.failed (.unparseable status (cstr body)), dbc)
      | some root =>
          let sent := dbc.sessionId.isSome
          if refusesSession sent status root then (.gone, dbc)
          else (.answered (decodeResponse root), absorbSession dbc root sent)

/-- `post`: one POST /api/execute, without any recovery. -/
def post (origin : Origin) (dbc : Dbc) (sql : Bytes) (count : ℤ) : Call (Outcome × Dbc) := do
  let reply ← Client.call (.post { origin := origin, dbc := dbc, sql := sql, count := count })
  return readReply dbc reply

/-! ## The scope -/

/-- Whether a name is there and not empty. -/
def hasName (name : Option Bytes) : Bool := name.getD [] ≠ []

/-- The statements of a name, which is never empty: `fl_strbuf_append_ident` refuses none. -/
def useDatabase (name : Bytes) : Bytes := lit "USE DATABASE " ++ ident name

def useSchema (name : Bytes) : Bytes := lit "USE SCHEMA " ++ ident name

def autocommitOff : Bytes := lit "ALTER SESSION SET AUTOCOMMIT = FALSE"

/-- The statements that put the connection's scope on a session. -/
def scopeStatements (dbc : Dbc) : List Bytes :=
  (if hasName dbc.scopeDatabase then [useDatabase (dbc.scopeDatabase.getD [])] else []) ++
  (if hasName dbc.scopeSchema then [useSchema (dbc.scopeSchema.getD [])] else []) ++
  (if !dbc.autocommit then [autocommitOff] else [])

/-- Why the scope is not on: a statement of it was refused, or there was no answer to one. -/
inductive ScopeFailure : Type where
  | refused (message : Bytes)
  | failed (e : TransportError)

/-- What `apply_scope` answers: the scope is on, or why not. -/
abbrev ScopeOutcome := Option ScopeFailure

/-- The loop of `apply_scope` from the statement `index` on; `whenGone` is what it does when the
engine does not hold the session. -/
def sendScope (whenGone : Dbc → Call (ScopeOutcome × Dbc)) :
    ℕ → List Bytes → Dbc → Call (ScopeOutcome × Dbc)
  | _, [], dbc => pure (none, dbc)
  | index, sql :: rest, dbc => do
      let (outcome, dbc) ← post (.scope index) dbc sql (-1)
      match outcome with
      | .gone => whenGone dbc
      | .failed e => return (some (.failed e), dbc)
      | .answered response =>
          match response.errorMessage with
          | some message => return (some (.refused message), dbc)
          | none => sendScope whenGone (index + 1) rest dbc

/-- What `apply_scope` does with a second loss of the session. -/
def scopeLostAgain (dbc : Dbc) : Call (ScopeOutcome × Dbc) :=
  return (some (.failed .lostAgain), forgetSession dbc)

/-- What `apply_scope` does with a first loss of the session: the whole scope goes on again. -/
def restartScope (scope : List Bytes) (dbc : Dbc) : Call (ScopeOutcome × Dbc) :=
  match loseSession dbc with
  | (some e, dbc) => return (some (.failed e), dbc)
  | (none, dbc) => sendScope scopeLostAgain 0 scope dbc

/-- The end of `apply_scope`: the scope is pending until it is on. -/
def settleScope : ScopeOutcome × Dbc → ScopeOutcome × Dbc
  | (none, dbc) => (none, { dbc with scopePending := false })
  | (some failure, dbc) => (some failure, dbc)

/-- `apply_scope`: puts the connection's scope on the session. A session lost part way takes what
was on with it, so the whole scope goes on again, once. -/
def applyScope (dbc : Dbc) : Call (ScopeOutcome × Dbc) := do
  let scope := scopeStatements dbc
  let outcome ← sendScope (restartScope scope) 0 scope dbc
  return settleScope outcome

/-! ## Executing -/

/-- What a call hands back: a transport error or a response. -/
abbrev Result := Except TransportError Response

/-- `scope_failed`. -/
def scopeFailed : ScopeFailure → Result
  | .refused message =>
      .ok { sets := [], sessionId := none
            errorMessage := some (lit "the connection's scope could not be applied: " ++ message) }
  | .failed e => .error e

/-- The end of `fl_proto_execute_as`: a refused session is reported, and what a statement that
succeeded leaves on the session is noted. -/
def finish (flags : ExecFlags) (sql : Bytes) : Outcome × Dbc → Result × Dbc
  | (.gone, dbc) => (.error .lostAgain, forgetSession dbc)
  | (.failed e, dbc) => (.error e, dbc)
  | (.answered response, dbc) =>
      (.ok response,
        if response.errorMessage.isNone && flags.tracked then flSessionNote dbc sql else dbc)

/-- `k` on a session that has the scope. -/
def withScope (scope : Call (ScopeOutcome × Dbc)) (k : Dbc → Call (Result × Dbc)) :
    Call (Result × Dbc) := do
  let (outcome, dbc) ← scope
  match outcome with
  | none => k dbc
  | some failure => return (scopeFailed failure, dbc)

/-- The last POST of a call: nothing is recovered any more. -/
def sendLast (sql : Bytes) (count : ℤ) (flags : ExecFlags) (dbc : Dbc) : Call (Result × Dbc) := do
  let answer ← post (.statement flags) dbc sql count
  return finish flags sql answer

/-- The first POST of a call. When the engine no longer holds the session, and it held nothing a
fresh one would not, the statement goes again on a fresh session with the scope. -/
def sendFirst (sql : Bytes) (count : ℤ) (flags : ExecFlags) (dbc : Dbc) : Call (Result × Dbc) := do
  let answer ← post (.statement flags) dbc sql count
  match answer with
  | (.gone, dbc) =>
      if !flags.recover then return finish flags sql (.gone, dbc)
      else
        match loseSession dbc with
        | (some e, dbc) => return (.error e, dbc)
        | (none, dbc) => withScope (applyScope dbc) (sendLast sql count flags)
  | answer => return finish flags sql answer

/-- `fl_proto_execute_as`. -/
def flProtoExecuteAs (dbc : Dbc) (sql : Bytes) (count : ℤ) (flags : ExecFlags) :
    Call (Result × Dbc) :=
  withScope (if dbc.scopePending then applyScope dbc else return (none, dbc))
    (sendFirst sql count flags)

/-- `fl_proto_execute_counted`. -/
def flProtoExecuteCounted (dbc : Dbc) (sql : Bytes) (count : ℤ) : Call (Result × Dbc) :=
  flProtoExecuteAs dbc sql count { tracked := true, recover := true }

/-- `fl_proto_execute`. -/
def flProtoExecute (dbc : Dbc) (sql : Bytes) : Call (Result × Dbc) :=
  flProtoExecuteCounted dbc sql (-1)

/-! ## Releasing -/

/-- `RELEASE_LIMIT`. -/
def releaseLimit : ℤ := 5

/-- One byte of the session id in the path of `fl_proto_release`. -/
def escapePathByte (c : UInt8) : Bytes :=
  if isUpper c || isLower c || isDigit c || c = ch '-' || c = ch '.' || c = ch '_' || c = ch '~' then
    [c]
  else
    let hexDigitUpper (n : ℕ) : UInt8 := UInt8.ofNat (if n < 10 then 48 + n else 55 + n)
    [ch '%', hexDigitUpper (c.toNat / 16), hexDigitUpper (c.toNat % 16)]

/-- `fl_proto_release`: what the server answers does not matter. -/
def flProtoRelease (dbc : Dbc) : Call Dbc := do
  match dbc.sessionId with
  | some id =>
      if dbc.tracksSessions = 1 then
        let limit := releaseLimit
        let limit := if 0 < dbc.loginTimeout ∧ dbc.loginTimeout < limit then dbc.loginTimeout else limit
        let limit :=
          if 0 < dbc.requestTimeout ∧ dbc.requestTimeout < limit then dbc.requestTimeout else limit
        let path := lit "/api/sessions/" ++ id.flatMap escapePathByte
        let _ ← Client.call (Request.delete dbc path limit)
        return { dbc with sessionId := none }
      else return { dbc with sessionId := none }
  | none => return { dbc with sessionId := none }

end FrostlakeOdbc
