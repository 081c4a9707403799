import FrostlakeOdbc.Connect
import FrostlakeOdbc.NotingLaw

/-!
# An engine that loses sessions

The engine at the other end of a connection, with what the README's section on the session lifetime
says of it. The engine is no part of the driver: what it stores and what it answers are parameters,
and `Engine.Keeps` is the contract.
-/

namespace FrostlakeOdbc

open CString JsonText Exchange Client

/-! ## Sessions -/

/-- What a session holds. -/
structure SessionState (Scope Settings Transaction : Type) where
  scope : Scope
  settings : Settings
  autocommit : Bool
  transaction : Option Transaction
  deriving DecidableEq

section

variable {Scope Settings Transaction : Type}

/-- What a statement may do to its session, by its leading words. A piece of a request that is just
white space and comments is no statement. -/
structure Changes (stmt : Statement) (s s' : SessionState Scope Settings Transaction) : Prop where
  blank : opening stmt.text = [] → s' = s
  kept : touchesSession (leadingWords stmt) = false →
    s'.scope = s.scope ∧ s'.settings = s.settings ∧ s'.autocommit = s.autocommit
  ends : transactionEffect (leadingWords stmt) = .ends → s'.transaction = none
  neither : transactionEffect (leadingWords stmt) = .neither → s.autocommit = true →
    s.transaction = none → s'.transaction = none

/-- What the statements of a request may do, one after the other. -/
def Performs : List Statement → SessionState Scope Settings Transaction →
    SessionState Scope Settings Transaction → Prop
  | [], s, s' => s' = s
  | stmt :: rest, s, s' => ∃ mid, Changes stmt s mid ∧ Performs rest mid s'

end

/-! ## The engine -/

/-- A response as an application can read it: nothing of ODBC shows the session. -/
def Response.seen (response : Response) : Response := { response with sessionId := none }

/-- What the server reads in the body of a POST. -/
structure Wire where
  sql : Bytes
  session : Option Bytes
  requiresSession : Bool
  count : Option ℤ

/-- The members that `build_request_json` writes. -/
def Post.wire (p : Post) : Wire where
  sql := p.sql
  session := p.dbc.sessionId
  requiresSession := p.dbc.sessionId.isSome && p.dbc.tracksSessions = 1
  count := if 0 ≤ p.count then some p.count else none

structure Engine where
  Shared : Type
  Scope : Type
  Settings : Type
  Transaction : Type
  Answer : Type
  /-- The scope and the settings a session starts with. -/
  scope : Scope
  settings : Settings
  /-- What a request does to the shared data and to the session it runs in. -/
  run : Shared → SessionState Scope Settings Transaction → Bytes → Option ℤ →
    Answer × Shared × SessionState Scope Settings Transaction
  /-- The shared data once a session is gone. -/
  close : Shared → SessionState Scope Settings Transaction → Shared
  /-- The scope after `USE DATABASE` and `USE SCHEMA` of a name. -/
  database : Bytes → Scope → Scope
  schema : Bytes → Scope → Scope
  /-- The name of a session, by how many were started before it. -/
  sessionName : ℕ → Bytes
  /-- The answer from the session of a name, and whether it says that the session is new. -/
  reply : Bytes → Bool → Answer → HttpReply
  unknownSession : HttpReply
  /-- What an answer says, apart from its session. -/
  response : Answer → Response

namespace Engine

variable (E : Engine)

abbrev Session : Type := SessionState E.Scope E.Settings E.Transaction

/-- A session as it starts. -/
def fresh : E.Session :=
  { scope := E.scope, settings := E.settings, autocommit := true, transaction := none }

/-- Whether an answer is a success. -/
def succeeds (answer : E.Answer) : Prop := (E.response answer).errorMessage = none

/-- The contract of the section on the session lifetime. -/
structure Keeps : Prop where
  /-- An answer names its session and says whether it is new; what else it says is the answer's. -/
  replies : ∀ n isNew answer, ∃ status body root,
    E.reply (E.sessionName n) isNew answer = .answered status body ∧
      flJsonParse (cstr body) = some root ∧ namedSession root = some (E.sessionName n) ∧
      newSession root = some isNew ∧ (decodeResponse root).seen = E.response answer
  unknown : ∃ body root, E.unknownSession = .answered 404 body ∧
    flJsonParse (cstr body) = some root ∧ success root = false ∧ namedSession root = none
  refused : ∀ shared s sql count, ¬E.succeeds (E.run shared s sql count).1 →
    (E.run shared s sql count).2 = (shared, s)
  performs : ∀ shared s sql count, E.succeeds (E.run shared s sql count).1 →
    Performs (statements sql) s (E.run shared s sql count).2.2
  /-- Where no transaction is or gets open, a USE moves the scope and does nothing else. -/
  useDatabase : ∀ shared s name, s.autocommit = true → s.transaction = none →
    E.succeeds (E.run shared s (useDatabase name) none).1 →
    (E.run shared s (useDatabase name) none).2 = (shared, { s with scope := E.database name s.scope })
  useSchema : ∀ shared s name, s.autocommit = true → s.transaction = none →
    E.succeeds (E.run shared s (useSchema name) none).1 →
    (E.run shared s (useSchema name) none).2 = (shared, { s with scope := E.schema name s.scope })
  /-- The driver's mirror of its commit mode sets the mode; a transaction may end with it. -/
  setAutocommit : ∀ shared s wanted, E.succeeds (E.run shared s (autocommitSql wanted) none).1 →
    ∃ shared' transaction, (E.run shared s (autocommitSql wanted) none).2 =
        (shared', { s with autocommit := wanted, transaction := transaction }) ∧
      (s.transaction = none → shared' = shared ∧ transaction = none)
  /-- Without a transaction, nothing is lost with a session but the session. -/
  close : ∀ shared s, s.transaction = none → E.close shared s = shared

/-- The state of the engine: the shared data, the connection's session, if it holds one, and how many
sessions and requests there were. -/
structure State where
  shared : E.Shared
  held : Option (Bytes × E.Session)
  started : ℕ
  requests : ℕ

variable {E}

variable (E)

/-- A request runs in a session. -/
def runIn (session : Bytes) (isNew : Bool) (s : E.Session) (w : Wire) (g : E.State) :
    HttpReply × E.State :=
  let (answer, shared, s) := E.run g.shared s w.sql w.count
  (E.reply session isNew answer, { g with shared := shared, held := some (session, s) })

/-- A request runs in a session that starts with it. -/
def start (w : Wire) (g : E.State) : HttpReply × E.State :=
  E.runIn (E.sessionName g.started) true E.fresh w { g with started := g.started + 1 }

/-- A request that names a session the engine does not hold. -/
def missing (w : Wire) (g : E.State) : HttpReply × E.State :=
  if w.requiresSession then (E.unknownSession, g) else E.start w g

def execute (w : Wire) (g : E.State) : HttpReply × E.State :=
  match w.session, g.held with
  | none, _ => E.start w g
  | some session, some (held, s) =>
      if held = session then E.runIn session false s w g else E.missing w g
  | some _, none => E.missing w g

end Engine

/-! ## What an application sees -/

/-- A call of the application. -/
inductive AppCall : Type where
  | execDirect (stmt : Stmt) (text : Bytes) (length : ℤ)
  | endTran (commit : Bool)
  | setAutocommit (wanted : Bool)

/-- What a call gives back: a success or a diagnostic, and the statement handle it was made on. -/
abbrev AppResult := Except Diag Unit × Option Stmt

def AppCall.run (dbc : Dbc) : AppCall → Call (AppResult × Dbc)
  | .execDirect stmt text length =>
      (fun (outcome, stmt, dbc) => ((outcome, some stmt), dbc)) <$> sqlExecDirect stmt text length dbc
  | .endTran commit => (fun (outcome, dbc) => ((outcome, none), dbc)) <$> sqlEndTran commit dbc
  | .setAutocommit wanted =>
      (fun (outcome, dbc) => ((outcome, none), dbc)) <$> sqlSetConnectAttr (.autocommit wanted) dbc

def Stmt.seen (stmt : Stmt) : Stmt := { stmt with response := stmt.response.map Response.seen }

end FrostlakeOdbc
