import FrostlakeOdbc.ConnectRule
import FrostlakeOdbc.StatementProof

/-!
# Connecting over a handle that was connected before

`SQLDriverConnect` over a disconnected handle against the same call over a new one, given the same
answers. The two are compared request by request (`Client.Matches`): a step lemma for each function
of the protocol, up to what a connect does not look at (`Dbc.shown`).
-/

namespace FrostlakeOdbc

open CString JsonText Exchange Client

/-! ## What is compared -/

/-- A request as the server at `host` and `port` gets it. -/
structure WireRequest where
  host : Option Bytes
  port : ℤ
  method : String
  path : Bytes
  body : Bytes

def Request.wire : Request → WireRequest
  | .post p => ⟨p.dbc.host, p.dbc.port, "POST", lit "/api/execute", p.body⟩
  | .get dbc path _ => ⟨dbc.host, dbc.port, "GET", path, []⟩
  | .delete dbc path _ => ⟨dbc.host, dbc.port, "DELETE", path, []⟩

def SameWire (q q' : Request) : Prop := q.wire = q'.wire

/-- The connections read alike: the current catalog, the data source name, and all that is kept of
the session. -/
structure LeavesSame (a b : Dbc) : Prop where
  catalog : a.database.getD [] = b.database.getD []
  dsn : a.dsn.getD [] = b.dsn.getD []
  session : a.sessionId = b.sessionId ∧ a.tracksSessions = b.tracksSessions ∧
    a.sessionDirty = b.sessionDirty ∧ a.inTransaction = b.inTransaction ∧
    a.scopePending = b.scopePending ∧ a.scopeDatabase = b.scopeDatabase ∧
    a.scopeSchema = b.scopeSchema

/-- Two calls come out alike, and where they succeed `R` relates the connections. -/
def SameOutcome {ε α : Type} (R : Dbc → Dbc → Prop) (x y : Except ε α × Dbc) : Prop :=
  x.1 = y.1 ∧ (x.1.toOption.isSome = true → R x.2 y.2)

/-- A newly allocated handle with the autocommit mode and the login timeout of another. -/
def freshLike (dbc : Dbc) : Dbc :=
  { allocDbc with autocommit := dbc.autocommit, loginTimeout := dbc.loginTimeout }

/-- `SQLDriverConnect` over the handle goes as over a new one. -/
def ConnectsAsFresh (ini : IniFile) (conn : Bytes) (length : ℤ) (dbc : Dbc) : Prop :=
  Matches SameWire (SameOutcome LeavesSame) (sqlDriverConnect ini conn length dbc)
    (sqlDriverConnect ini conn length (freshLike dbc))

/-! ## Connections that differ in what a connect does not look at -/

def Dbc.shown (dbc : Dbc) : Dbc :=
  { dbc with database := none, schema := none, dsn := some (dbc.dsn.getD []), requestTimeout := 0 }

/-- The connections differ at most in that, and if `h` holds not in the catalog either. -/
structure ShownAlike (h : Prop) (a b : Dbc) : Prop where
  shown : a.shown = b.shown
  catalog : h → a.database.getD [] = b.database.getD []

def BothAlike {α : Type} (h : Prop) (x y : α × Dbc) : Prop := x.1 = y.1 ∧ ShownAlike h x.2 y.2

variable {h : Prop} {a b : Dbc}

namespace ShownAlike

theorem sessionId (hab : ShownAlike h a b) : a.sessionId = b.sessionId :=
  (congrArg Dbc.sessionId hab.shown :)

theorem tracksSessions (hab : ShownAlike h a b) : a.tracksSessions = b.tracksSessions :=
  (congrArg Dbc.tracksSessions hab.shown :)

theorem scopePending (hab : ShownAlike h a b) : a.scopePending = b.scopePending :=
  (congrArg Dbc.scopePending hab.shown :)

theorem scopeDatabase (hab : ShownAlike h a b) : a.scopeDatabase = b.scopeDatabase :=
  (congrArg Dbc.scopeDatabase hab.shown :)

theorem autocommit (hab : ShownAlike h a b) : a.autocommit = b.autocommit :=
  (congrArg Dbc.autocommit hab.shown :)

theorem host (hab : ShownAlike h a b) : a.host = b.host := (congrArg Dbc.host hab.shown :)

theorem port (hab : ShownAlike h a b) : a.port = b.port := (congrArg Dbc.port hab.shown :)

theorem scopeStatements (hab : ShownAlike h a b) : scopeStatements a = scopeStatements b :=
  (congrArg FrostlakeOdbc.scopeStatements hab.shown :)

theorem leavesSame (hab : ShownAlike True a b) : LeavesSame a b where
  catalog := hab.catalog trivial
  dsn := Option.some.inj (congrArg Dbc.dsn hab.shown :)
  session := ⟨hab.sessionId, hab.tracksSessions, (congrArg Dbc.sessionDirty hab.shown :),
    (congrArg Dbc.inTransaction hab.shown :), hab.scopePending, hab.scopeDatabase,
    (congrArg Dbc.scopeSchema hab.shown :)⟩

/-- A change that reads only what is shown and leaves the catalog alone. -/
theorem map (hab : ShownAlike h a b) (f : Dbc → Dbc)
    (hshown : ∀ d : Dbc, (f d).shown = (f d.shown).shown)
    (hcatalog : ∀ d : Dbc, (f d).database = d.database) : ShownAlike h (f a) (f b) := by
  refine ⟨?_, fun hh => ?_⟩
  · rw [hshown a, hshown b, hab.shown]
  · rw [hcatalog a, hcatalog b]
    exact hab.catalog hh

theorem forgetSession (hab : ShownAlike h a b) : ShownAlike h (forgetSession a) (forgetSession b) := by
  refine ⟨?_, fun _ => congrArg (fun name => Option.getD name []) hab.scopeDatabase⟩
  have hshown : ∀ d : Dbc, (FrostlakeOdbc.forgetSession d).shown =
      (FrostlakeOdbc.forgetSession d.shown).shown := fun _ => rfl
  rw [hshown a, hshown b, hab.shown]

end ShownAlike

theorem shown_absorbSession (d : Dbc) (root : Value) (sent : Bool) :
    (absorbSession d root sent).shown = (absorbSession d.shown root sent).shown := by
  unfold absorbSession
  cases namedSession root with
  | none => rfl
  | some session =>
    cases newSession root with
    | none =>
      dsimp only
      by_cases hneg : d.tracksSessions < 0
      · rw [if_pos hneg, if_pos (show d.shown.tracksSessions < 0 from hneg)]
        rfl
      · rw [if_neg hneg, if_neg (show ¬d.shown.tracksSessions < 0 from hneg)]
        rfl
    | some started => cases sent <;> cases started <;> rfl

theorem ShownAlike.absorbSession (hab : ShownAlike h a b) (root : Value) (sent : Bool) :
    ShownAlike h (absorbSession a root sent) (absorbSession b root sent) := by
  refine ⟨?_, fun hh => ?_⟩
  · rw [shown_absorbSession a, shown_absorbSession b, hab.shown]
  · rw [database_absorbSession, database_absorbSession]
    cases replaces sent root with
    | false => exact hab.catalog hh
    | true => exact congrArg (fun name => Option.getD name []) hab.scopeDatabase

theorem ShownAlike.readReply (hab : ShownAlike h a b) (reply : HttpReply) :
    BothAlike h (readReply a reply) (readReply b reply) := by
  cases reply with
  | failed message => exact ⟨rfl, hab⟩
  | answered status body =>
    unfold FrostlakeOdbc.readReply
    dsimp only
    cases flJsonParse (cstr body) with
    | none => exact ⟨rfl, hab⟩
    | some root =>
      dsimp only
      rw [hab.sessionId]
      by_cases hrefuses : refusesSession b.sessionId.isSome status root = true
      · rw [if_pos hrefuses, if_pos hrefuses]
        exact ⟨rfl, hab⟩
      · rw [if_neg hrefuses, if_neg hrefuses]
        exact ⟨rfl, hab.absorbSession root _⟩

/-! ## The protocol, function by function -/

theorem matches_post (hab : ShownAlike h a b) (origin : Origin) (sql : Bytes) (count : ℤ) :
    Matches SameWire (BothAlike h) (post origin a sql count) (post origin b sql count) := by
  have hwire : SameWire (.post ⟨origin, a, sql, count⟩) (.post ⟨origin, b, sql, count⟩) := by
    show WireRequest.mk _ _ _ _ _ = WireRequest.mk _ _ _ _ _
    unfold Post.body buildRequestJson
    dsimp only
    rw [hab.host, hab.port, hab.sessionId, hab.tracksSessions]
  unfold post
  apply (matches_call hwire).bind
  rintro reply _ rfl
  exact matches_pure (hab.readReply reply)

theorem matches_sendScope {whenGone whenGone' : Dbc → Call (ScopeOutcome × Dbc)}
    (hgone : ∀ a b, ShownAlike h a b → Matches SameWire (BothAlike h) (whenGone a) (whenGone' b))
    (hab : ShownAlike h a b) (i : ℕ) (stmts : List Bytes) :
    Matches SameWire (BothAlike h) (sendScope whenGone i stmts a) (sendScope whenGone' i stmts b) := by
  induction stmts generalizing i a b with
  | nil => exact matches_pure ⟨rfl, hab⟩
  | cons sql rest ih =>
    apply (matches_post hab (.scope i) sql (-1)).bind
    rintro ⟨outcome, a'⟩ ⟨_, b'⟩ ⟨rfl, hab'⟩
    cases outcome with
    | gone => exact hgone a' b' hab'
    | failed e => exact matches_pure ⟨rfl, hab'⟩
    | answered response =>
      dsimp only
      cases response.errorMessage with
      | some message => exact matches_pure ⟨rfl, hab'⟩
      | none => exact ih hab' (i + 1)

theorem ShownAlike.loseSession (hab : ShownAlike h a b) :
    BothAlike h (loseSession a) (loseSession b) := by
  unfold FrostlakeOdbc.loseSession
  have htx : a.inTransaction = b.inTransaction := (congrArg Dbc.inTransaction hab.shown :)
  have hdirty : a.sessionDirty = b.sessionDirty := (congrArg Dbc.sessionDirty hab.shown :)
  rw [htx, hdirty]
  split <;> exact ⟨rfl, hab.forgetSession⟩

theorem matches_restartScope (hab : ShownAlike h a b) (scope : List Bytes) :
    Matches SameWire (BothAlike h) (restartScope scope a) (restartScope scope b) := by
  unfold restartScope
  obtain ⟨hsame, hlost⟩ := hab.loseSession
  generalize loseSession a = x at hsame hlost ⊢
  generalize loseSession b = y at hsame hlost ⊢
  obtain ⟨e, a'⟩ := x
  obtain ⟨e', b'⟩ := y
  obtain rfl : e = e' := hsame
  cases e with
  | some e => exact matches_pure ⟨rfl, hlost⟩
  | none =>
    refine matches_sendScope (fun a b hab => ?_) hlost 0 scope
    exact matches_pure ⟨rfl, hab.forgetSession⟩

theorem matches_applyScope (hab : ShownAlike h a b) :
    Matches SameWire (BothAlike h) (applyScope a) (applyScope b) := by
  unfold applyScope
  rw [hab.scopeStatements]
  refine (matches_sendScope (fun a b hab => matches_restartScope hab _) hab 0 _).bind ?_
  rintro ⟨outcome, a'⟩ ⟨_, b'⟩ ⟨rfl, hab'⟩
  cases outcome with
  | none =>
    have hsettled := hab'.map (fun d => { d with scopePending := false }) (fun _ => rfl) fun _ => rfl
    exact matches_pure ⟨rfl, hsettled⟩
  | some failure => exact matches_pure ⟨rfl, hab'⟩

/-- The driver's own statements at connect, which are not noted and not recovered. -/
theorem matches_connectStatement (hab : ShownAlike h a b) (sql : Bytes) :
    Matches SameWire (BothAlike h)
      (flProtoExecuteAs a sql (-1) { tracked := false, recover := false })
      (flProtoExecuteAs b sql (-1) { tracked := false, recover := false }) := by
  have hscope : Matches SameWire (BothAlike h)
      (if a.scopePending then applyScope a else return (none, a))
      (if b.scopePending then applyScope b else return (none, b)) := by
    rw [hab.scopePending]
    split
    · exact matches_applyScope hab
    · exact matches_pure ⟨rfl, hab⟩
  apply hscope.bind
  rintro ⟨outcome, a'⟩ ⟨_, b'⟩ ⟨rfl, hab'⟩
  cases outcome with
  | some failure => exact matches_pure ⟨rfl, hab'⟩
  | none =>
    apply (matches_post hab' _ sql (-1)).bind
    rintro ⟨answer, a''⟩ ⟨_, b''⟩ ⟨rfl, hab''⟩
    cases answer with
    | gone => exact matches_pure ⟨rfl, hab''.forgetSession⟩
    | failed e => exact matches_pure ⟨rfl, hab''⟩
    | answered response =>
      refine matches_pure ⟨rfl, ?_⟩
      show ShownAlike h (if (_ && false) = true then _ else a'')
        (if (_ && false) = true then _ else b'')
      rw [Bool.and_false, if_neg Bool.false_ne_true, if_neg Bool.false_ne_true]
      exact hab''

theorem matches_flProtoRelease (hab : ShownAlike h a b) :
    Matches SameWire (ShownAlike h) (flProtoRelease a) (flProtoRelease b) := by
  have hclosed : ShownAlike h { a with sessionId := none } { b with sessionId := none } :=
    hab.map (fun d => { d with sessionId := none }) (fun _ => rfl) fun _ => rfl
  have hlisted : a.tracksSessions = 1 ↔ b.tracksSessions = 1 := by rw [hab.tracksSessions]
  unfold flProtoRelease
  rw [hab.sessionId]
  cases b.sessionId with
  | none => exact matches_pure hclosed
  | some id =>
    dsimp only
    by_cases hb : b.tracksSessions = 1
    · rw [if_pos (hlisted.2 hb), if_pos hb]
      refine Matches.bind (matches_call ?_) fun _ _ _ => matches_pure hclosed
      show WireRequest.mk _ _ _ _ _ = WireRequest.mk _ _ _ _ _
      rw [hab.host, hab.port]
    · rw [if_neg (mt hlisted.1 hb), if_neg hb]
      exact matches_pure hclosed

/-! ## Connecting -/

/-- A failure closes both connections and tells both applications the same. -/
theorem matches_connectFailure {R : Dbc → Dbc → Prop} (hab : ShownAlike h a b) (diag : Diag) :
    Matches SameWire (SameOutcome R)
      (do let d ← flProtoRelease { a with connected := false }; return (.error diag, d) :
        Call ConnectResult)
      (do let d ← flProtoRelease { b with connected := false }; return (.error diag, d)) := by
  have hclosed : ShownAlike h { a with connected := false } { b with connected := false } :=
    hab.map (fun d => { d with connected := false }) (fun _ => rfl) fun _ => rfl
  refine (matches_flProtoRelease hclosed).bind fun a' b' _ => ?_
  exact matches_pure ⟨rfl, fun hok => absurd hok Bool.false_ne_true⟩

theorem matches_connectExecute (hab : ShownAlike h a b) (sql : Bytes) (linkState : String) :
    Matches SameWire (SameOutcome (ShownAlike h)) (connectExecute sql linkState a)
      (connectExecute sql linkState b) := by
  unfold connectExecute
  apply (matches_connectStatement hab sql).bind
  rintro ⟨result, a'⟩ ⟨_, b'⟩ ⟨rfl, hab'⟩
  cases result with
  | error e => exact matches_connectFailure hab' _
  | ok response =>
    dsimp only
    cases response.errorMessage with
    | some message => exact matches_connectFailure hab' _
    | none => exact matches_pure ⟨rfl, fun _ => hab'⟩

theorem matches_onSuccess {R R' : Dbc → Dbc → Prop} {p p' : Call ConnectResult}
    {k k' : Dbc → Call ConnectResult} (hp : Matches SameWire (SameOutcome R) p p')
    (hk : ∀ a b, R a b → Matches SameWire (SameOutcome R') (k a) (k' b)) :
    Matches SameWire (SameOutcome R') (onSuccess p k) (onSuccess p' k') := by
  unfold onSuccess
  apply hp.bind
  rintro ⟨outcome, a⟩ ⟨_, b⟩ ⟨rfl, hab⟩
  cases outcome with
  | ok u => exact hk a b (hab rfl)
  | error diag => exact matches_pure ⟨rfl, fun hok => absurd hok Bool.false_ne_true⟩

/-- Naming the database makes the catalogs the same. -/
theorem matches_connectDatabase {database : Option Bytes}
    (hab : ShownAlike (hasName database = false) a b) :
    Matches SameWire (SameOutcome (ShownAlike True)) (connectDatabase database a)
      (connectDatabase database b) := by
  unfold connectDatabase
  by_cases hname : hasName database = true
  · rw [if_pos hname, if_pos hname]
    refine matches_onSuccess (matches_connectExecute hab _ _) fun a' b' hab' => ?_
    exact matches_pure ⟨rfl, fun _ => ⟨hab'.shown, fun _ => rfl⟩⟩
  · rw [if_neg hname, if_neg hname]
    have hcatalog := hab.catalog (Bool.eq_false_iff.2 hname)
    exact matches_pure ⟨rfl, fun _ => ⟨hab.shown, fun _ => hcatalog⟩⟩

theorem matches_connectSchema (hab : ShownAlike h a b) (schema : Option Bytes) :
    Matches SameWire (SameOutcome (ShownAlike h)) (connectSchema schema a)
      (connectSchema schema b) := by
  unfold connectSchema
  by_cases hname : hasName schema = true
  · rw [if_pos hname, if_pos hname]
    refine matches_onSuccess (matches_connectExecute hab _ _) fun a' b' hab' => ?_
    have hset := hab'.map (fun d => { d with schema := schema }) (fun _ => rfl) fun _ => rfl
    exact matches_pure ⟨rfl, fun _ => hset⟩
  · rw [if_neg hname, if_neg hname]
    exact matches_pure ⟨rfl, fun _ => hab⟩

theorem matches_connectAutocommit (hab : ShownAlike h a b) :
    Matches SameWire (SameOutcome (ShownAlike h)) (connectAutocommit a) (connectAutocommit b) := by
  unfold connectAutocommit
  rw [hab.autocommit]
  by_cases hoff : (!b.autocommit) = true
  · rw [if_pos hoff, if_pos hoff]
    exact matches_connectExecute hab _ _
  · rw [if_neg hoff, if_neg hoff]
    exact matches_pure ⟨rfl, fun _ => hab⟩

/-- All that `do_connect` takes from the handle. -/
structure OpensAlike (database : Option Bytes) (a b : Dbc) : Prop where
  host : a.host = b.host
  port : a.port = b.port
  autocommit : a.autocommit = b.autocommit
  loginTimeout : a.loginTimeout = b.loginTimeout
  dsn : a.dsn.getD [] = b.dsn.getD []
  catalog : hasName database = false → a.database.getD [] = b.database.getD []

theorem OpensAlike.openDbc {database : Option Bytes} (hab : OpensAlike database a b)
    (schema host : Option Bytes) :
    ShownAlike (hasName database = false) (openDbc database schema { a with host := host })
      (openDbc database schema { b with host := host }) := by
  refine ⟨?_, hab.catalog⟩
  unfold FrostlakeOdbc.openDbc flProtoSessionReset Dbc.shown
  dsimp only
  rw [hab.port, hab.autocommit, hab.loginTimeout, hab.dsn]

theorem matches_doConnect {database : Option Bytes} (hab : OpensAlike database a b)
    (schema : Option Bytes) :
    Matches SameWire (SameOutcome (ShownAlike True)) (doConnect database schema a)
      (doConnect database schema b) := by
  have hhost : some (a.host.getD (lit "localhost")) = some (b.host.getD (lit "localhost")) := by
    rw [hab.host]
  have hopened := hab.openDbc schema (some (a.host.getD (lit "localhost")))
  unfold doConnect
  generalize some (a.host.getD (lit "localhost")) = host at hhost hopened ⊢
  subst hhost
  dsimp only
  refine Matches.bind (matches_call ?_) ?_
  · show WireRequest.mk _ _ _ _ _ = WireRequest.mk _ _ _ _ _
    dsimp only
    rw [hab.port]
  rintro reply _ rfl
  rw [hab.port]
  cases reply with
  | failed message => exact matches_pure ⟨rfl, fun hok => absurd hok Bool.false_ne_true⟩
  | answered status body =>
    dsimp only
    by_cases hstatus : status ≠ 200
    · rw [if_pos hstatus, if_pos hstatus]
      exact matches_pure ⟨rfl, fun hok => absurd hok Bool.false_ne_true⟩
    · rw [if_neg hstatus, if_neg hstatus]
      rw [hab.port] at hopened
      have hscoped := matches_onSuccess (matches_connectDatabase hopened) fun a' b' hab' =>
        matches_connectSchema hab' schema
      exact matches_onSuccess hscoped fun a' b' hab' => matches_connectAutocommit hab'

/-- What is left of an earlier connection that the names of the next do not replace. -/
structure NothingLeft (names : Named) (dbc : Dbc) : Prop where
  port : names.port.isSome = true ∨ dbc.port = 18082
  catalog : hasName names.database = true ∨ dbc.database.getD [] = []
  dsn : names.dsn.isSome = true ∨ dbc.dsn.getD [] = []

/-- The connection as `SQLDriverConnect` hands it to `do_connect`. -/
def namedDbc (names : Named) (dbc : Dbc) : Dbc :=
  { dbc with
    dsn := names.dsn.or dbc.dsn
    host := some (names.server.getD (lit "localhost"))
    port := (names.port.bind parsePort).getD dbc.port }

theorem sqlDriverConnect_of_parsed {ini : IniFile} {conn : Bytes} {length : ℤ} {dbc : Dbc}
    {names : Named} (hclosed : dbc.connected = false)
    (hnames : driverConnectNames ini (copyText 2048 conn length) = names)
    (hport : ∀ port, names.port = some port → (parsePort port).isSome = true) :
    sqlDriverConnect ini conn length dbc = do
      let (outcome, d) ← doConnect names.database names.schema (namedDbc names dbc)
      return (outcome.map fun _ => outConnectionString names d, d) := by
  have hnamed : ∀ portMessage, connectNamed names portMessage dbc =
      doConnect names.database names.schema (namedDbc names dbc) := by
    intro portMessage
    unfold connectNamed namedDbc
    cases hp : names.port with
    | none => rfl
    | some port =>
      obtain ⟨parsed, hparsed⟩ := Option.isSome_iff_exists.1 (hport port hp)
      dsimp only
      rw [Option.bind_some, hparsed]
      rfl
  unfold sqlDriverConnect
  rw [if_neg (Bool.eq_false_iff.1 hclosed), hnames]
  dsimp only
  rw [hnamed]

theorem sqlDriverConnect_of_not_parsed {ini : IniFile} {conn : Bytes} {length : ℤ} {dbc : Dbc}
    {names : Named} {port : Bytes} (hclosed : dbc.connected = false)
    (hnames : driverConnectNames ini (copyText 2048 conn length) = names)
    (hport : names.port = some port) (hparse : parsePort port = none) :
    sqlDriverConnect ini conn length dbc =
      return (.error (flDiagSet "HY000"
        (lit "Port must be a number from 1 to 65535, got '" ++ port ++ lit "'")),
        { dbc with
          dsn := names.dsn.or dbc.dsn
          host := some (names.server.getD (lit "localhost")) }) := by
  unfold sqlDriverConnect connectNamed
  rw [if_neg (Bool.eq_false_iff.1 hclosed), hnames]
  dsimp only
  rw [hport]
  dsimp only
  rw [hparse]
  rfl

/-! ### Against a server that accepts everything -/

theorem serve_connectStatement (sql : Bytes) {dbc : Dbc} (hset : dbc.scopePending = false) :
    ∃ response, response.errorMessage = none ∧
      (flProtoExecuteAs dbc sql (-1) { tracked := false, recover := false }).serve answersOk () =
        ((.ok response, dbc), ()) := by
  obtain ⟨response, hmessage, hreply⟩ := readReply_okReply
  refine ⟨response, hmessage, ?_⟩
  unfold flProtoExecuteAs
  rw [hset]
  show Client.serve answersOk (sendFirst sql (-1) _ dbc) () = _
  unfold sendFirst post
  simp only [serve_bind, serve_call, serve_pure]
  rw [show answersOk () _ = (okReply, ()) from rfl, hreply]
  simp only [serve_pure, finish, Bool.and_false, Bool.false_eq_true, if_false]

theorem serve_connectExecute (sql : Bytes) (linkState : String) {dbc : Dbc}
    (hset : dbc.scopePending = false) :
    (connectExecute sql linkState dbc).serve answersOk () = ((.ok (), dbc), ()) := by
  obtain ⟨response, hmessage, hserve⟩ := serve_connectStatement sql hset
  unfold connectExecute
  rw [serve_bind, hserve]
  dsimp only
  rw [hmessage]
  rfl

theorem serve_onSuccess {p : Call ConnectResult} {k : Dbc → Call ConnectResult} {dbc : Dbc}
    (hp : p.serve answersOk () = ((.ok (), dbc), ())) :
    (onSuccess p k).serve answersOk () = (k dbc).serve answersOk () := by
  unfold onSuccess
  rw [serve_bind, hp]

/-- The connect succeeds, the data source name is not touched, and the catalog only where a database
is named. -/
theorem serve_doConnect (database schema : Option Bytes) (dbc : Dbc) :
    ∃ d, (doConnect database schema dbc).serve answersOk () = ((.ok (), d), ()) ∧
      d.dsn = dbc.dsn ∧ (hasName database = false → d.database = dbc.database) := by
  unfold doConnect
  rw [serve_bind]
  show ∃ d, Client.serve answersOk (onSuccess (onSuccess (connectDatabase database _) _) _) () = _ ∧ _
  generalize hopened : openDbc database schema _ = d₁
  have hdatabase : ∃ d₂, (connectDatabase database d₁).serve answersOk () = ((.ok (), d₂), ()) ∧
      d₂.scopePending = false ∧ d₂.dsn = dbc.dsn ∧
      (hasName database = false → d₂.database = dbc.database) := by
    subst hopened
    unfold connectDatabase
    by_cases hname : hasName database = true
    · rw [if_pos hname, serve_onSuccess (serve_connectExecute _ _ rfl)]
      refine ⟨_, rfl, rfl, rfl, fun hno => ?_⟩
      rw [hname] at hno
      cases hno
    · rw [if_neg hname]
      exact ⟨_, rfl, rfl, rfl, fun _ => rfl⟩
  obtain ⟨d₂, hserve₂, hset₂, hkept₂⟩ := hdatabase
  have hschema : ∃ d₃, (connectSchema schema d₂).serve answersOk () = ((.ok (), d₃), ()) ∧
      d₃.scopePending = false ∧ d₃.dsn = d₂.dsn ∧ d₃.database = d₂.database := by
    unfold connectSchema
    by_cases hname : hasName schema = true
    · rw [if_pos hname, serve_onSuccess (serve_connectExecute _ _ hset₂)]
      exact ⟨_, rfl, hset₂, rfl, rfl⟩
    · rw [if_neg hname]
      exact ⟨_, rfl, hset₂, rfl, rfl⟩
  obtain ⟨d₃, hserve₃, hset₃, hdsn₃, hcatalog₃⟩ := hschema
  have hautocommit : (connectAutocommit d₃).serve answersOk () = ((.ok (), d₃), ()) := by
    unfold connectAutocommit
    by_cases hoff : (!d₃.autocommit) = true
    · rw [if_pos hoff]
      exact serve_connectExecute _ _ hset₃
    · rw [if_neg hoff]
      rfl
  refine ⟨d₃, ?_, ?_⟩
  · rw [serve_onSuccess, hautocommit]
    rw [serve_onSuccess hserve₂, hserve₃]
  · rw [hdsn₃, hcatalog₃]
    exact hkept₂

/-! ## The handle against a new one -/

section

variable {ini : IniFile} {conn : Bytes} {length : ℤ} {dbc : Dbc} {names : Named}

theorem NothingLeft.opensAlike (hleft : NothingLeft names dbc)
    (hport : ∀ port, names.port = some port → (parsePort port).isSome = true) :
    OpensAlike names.database (namedDbc names dbc) (namedDbc names (freshLike dbc)) where
  host := rfl
  autocommit := rfl
  loginTimeout := rfl
  port := by
    show (names.port.bind parsePort).getD dbc.port = (names.port.bind parsePort).getD 18082
    cases hp : names.port with
    | none =>
      have hdefault := hleft.port
      rw [hp] at hdefault
      exact hdefault.resolve_left Bool.false_ne_true
    | some port =>
      obtain ⟨parsed, hparsed⟩ := Option.isSome_iff_exists.1 (hport port hp)
      rw [Option.bind_some, hparsed]
      rfl
  dsn := by
    show (names.dsn.or dbc.dsn).getD [] = (names.dsn.or none).getD []
    cases hd : names.dsn with
    | none =>
      have hempty := hleft.dsn
      rw [hd] at hempty
      exact hempty.resolve_left Bool.false_ne_true
    | some dsn => rfl
  catalog hname := by
    have hempty := hleft.catalog
    rw [hname] at hempty
    exact hempty.resolve_left Bool.false_ne_true

/-- A port that is not one is refused before anything is sent. -/
theorem connectsAsFresh_of_not_parsed (hclosed : dbc.connected = false)
    (hnames : driverConnectNames ini (copyText 2048 conn length) = names) {port : Bytes}
    (hport : names.port = some port) (hparse : parsePort port = none) :
    ConnectsAsFresh ini conn length dbc := by
  unfold ConnectsAsFresh
  rw [sqlDriverConnect_of_not_parsed hclosed hnames hport hparse,
    sqlDriverConnect_of_not_parsed rfl hnames hport hparse]
  exact matches_pure ⟨rfl, fun hok => absurd hok Bool.false_ne_true⟩

theorem connectsAsFresh_of_nothingLeft (hclosed : dbc.connected = false)
    (hnames : driverConnectNames ini (copyText 2048 conn length) = names)
    (hport : ∀ port, names.port = some port → (parsePort port).isSome = true)
    (hleft : NothingLeft names dbc) : ConnectsAsFresh ini conn length dbc := by
  unfold ConnectsAsFresh
  rw [sqlDriverConnect_of_parsed hclosed hnames hport, sqlDriverConnect_of_parsed rfl hnames hport]
  apply (matches_doConnect (hleft.opensAlike hport) names.schema).bind
  rintro ⟨outcome, a⟩ ⟨_, b⟩ ⟨rfl, hab⟩
  cases outcome with
  | error diag => exact matches_pure ⟨rfl, fun hok => absurd hok Bool.false_ne_true⟩
  | ok u =>
    have halike := hab rfl
    have hout : outConnectionString names a = outConnectionString names b := by
      unfold outConnectionString
      rw [halike.host, halike.port]
    refine matches_pure ⟨?_, fun _ => halike.leavesSame⟩
    show Except.ok (outConnectionString names a) = Except.ok (outConnectionString names b)
    rw [hout]

/-- The port is where the health probe goes. -/
theorem port_of_connectsAsFresh (hclosed : dbc.connected = false)
    (hnames : driverConnectNames ini (copyText 2048 conn length) = names)
    (hport : ∀ port, names.port = some port → (parsePort port).isSome = true)
    (hfresh : ConnectsAsFresh ini conn length dbc) :
    names.port.isSome = true ∨ dbc.port = 18082 := by
  unfold ConnectsAsFresh at hfresh
  rw [sqlDriverConnect_of_parsed hclosed hnames hport,
    sqlDriverConnect_of_parsed rfl hnames hport] at hfresh
  have hprobe : (namedDbc names dbc).port = (namedDbc names (freshLike dbc)).port :=
    congrArg WireRequest.port hfresh.1
  cases hp : names.port with
  | some port => exact .inl rfl
  | none =>
    refine .inr ?_
    unfold namedDbc freshLike at hprobe
    rw [hp] at hprobe
    exact hprobe

/-- The rest shows where the server accepts everything. -/
theorem leavesSame_of_connectsAsFresh (hclosed : dbc.connected = false)
    (hnames : driverConnectNames ini (copyText 2048 conn length) = names)
    (hport : ∀ port, names.port = some port → (parsePort port).isSome = true)
    (hfresh : ConnectsAsFresh ini conn length dbc) :
    (hasName names.database = true ∨ dbc.database.getD [] = []) ∧
      (names.dsn.isSome = true ∨ dbc.dsn.getD [] = []) := by
  unfold ConnectsAsFresh at hfresh
  rw [sqlDriverConnect_of_parsed hclosed hnames hport,
    sqlDriverConnect_of_parsed rfl hnames hport] at hfresh
  obtain ⟨a, ha, hdsn, hcatalog⟩ := serve_doConnect names.database names.schema (namedDbc names dbc)
  obtain ⟨b, hb, hdsn', hcatalog'⟩ :=
    serve_doConnect names.database names.schema (namedDbc names (freshLike dbc))
  have hpeer : ∀ (u : Unit) (q q' : Request), SameWire q q' → answersOk u q = answersOk u q' :=
    fun _ _ _ _ => rfl
  have hsame := (hfresh.serve hpeer ()).2
  rw [serve_bind, serve_bind, ha, hb] at hsame
  have hleaves : LeavesSame a b := hsame rfl
  constructor
  · cases hname : hasName names.database with
    | true => exact .inl rfl
    | false =>
      have hread := hleaves.catalog
      rw [hcatalog hname, hcatalog' hname] at hread
      exact .inr hread
  · cases hd : names.dsn with
    | some dsn => exact .inl rfl
    | none =>
      have hread := hleaves.dsn
      rw [hdsn, hdsn'] at hread
      unfold namedDbc freshLike at hread
      rw [hd] at hread
      exact .inr hread

end

/-- When a connection handle connects as a new one: the port it was given is refused, or nothing of
an earlier connection is left on it. -/
theorem connectsAsFresh_iff (ini : IniFile) (conn : Bytes) (length : ℤ) {dbc : Dbc}
    (hclosed : dbc.connected = false) :
    ConnectsAsFresh ini conn length dbc ↔
      (∃ port, (driverConnectNames ini (copyText 2048 conn length)).port = some port ∧
        parsePort port = none) ∨
      NothingLeft (driverConnectNames ini (copyText 2048 conn length)) dbc := by
  generalize hnames : driverConnectNames ini (copyText 2048 conn length) = names
  by_cases hrefused : ∃ port, names.port = some port ∧ parsePort port = none
  · obtain ⟨port, hport, hparse⟩ := hrefused
    exact iff_of_true (connectsAsFresh_of_not_parsed hclosed hnames hport hparse)
      (.inl ⟨port, hport, hparse⟩)
  · have hport : ∀ port, names.port = some port → (parsePort port).isSome = true := by
      intro port hp
      refine Option.isSome_iff_ne_none.2 fun hnone => hrefused ⟨port, hp, hnone⟩
    rw [or_iff_right hrefused]
    constructor
    · intro hfresh
      obtain ⟨hcatalog, hdsn⟩ := leavesSame_of_connectsAsFresh hclosed hnames hport hfresh
      exact ⟨port_of_connectsAsFresh hclosed hnames hport hfresh, hcatalog, hdsn⟩
    · exact connectsAsFresh_of_nothingLeft hclosed hnames hport

theorem connectsAsFresh_iff_alloc :
    allocDbc.connected = false ∧ (ConnectsAsFresh (fun _ _ => []) (lit "Server=b") sqlNts allocDbc ↔
      (∃ port, (driverConnectNames (fun _ _ => []) (copyText 2048 (lit "Server=b") sqlNts)).port =
        some port ∧ parsePort port = none) ∨
      NothingLeft (driverConnectNames (fun _ _ => []) (copyText 2048 (lit "Server=b") sqlNts))
        allocDbc) :=
  ⟨rfl, connectsAsFresh_iff _ _ _ rfl⟩

/-- A connect over a new handle and a disconnect. -/
def connectOnce (ini : IniFile) (conn : Bytes) : Call Dbc := do
  let (_, dbc) ← sqlDriverConnect ini conn sqlNts allocDbc
  let (_, dbc) ← sqlDisconnect dbc
  return dbc

/-- After `Port=9000` on one server, a connect to another server that names no port goes to 9000
too. -/
theorem connectsAsFresh_port_kept :
    ∃ t dbc, Runs (connectOnce (fun _ _ => []) (lit "Server=a;Port=9000")) t dbc ∧
      dbc.connected = false ∧ ¬ConnectsAsFresh (fun _ _ => []) (lit "Server=b") sqlNts dbc := by
  obtain ⟨t, hrun⟩ := runs_serve answersOk
    (connectOnce (fun _ _ => []) (lit "Server=a;Port=9000")) ()
  refine ⟨t, _, hrun, by decide, fun hfresh => ?_⟩
  have hport := port_of_connectsAsFresh (by decide) rfl (by decide) hfresh
  revert hport
  decide

end FrostlakeOdbc
