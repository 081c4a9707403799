import FrostlakeOdbc.Connect
import FrostlakeOdbc.ProtoRule

/-!
# The rules of a connection's calls

A condition that every execution keeps is kept by every call on a connection
(`CallsKeep.holds_runCalls`), and what holds after a connect is built up statement by statement. Where
one condition serves for the whole of an open connection, it is enough that each POST and the release
keep it, also for a connect that fails (`ConnectKeeps.holds_doConnect`).
-/

namespace FrostlakeOdbc

open CString JsonText Exchange Client

variable {G : Type} {M : Monitor Request HttpReply G}

/-- The call answered with a response that carries no error. -/
def Result.isSuccess : Result → Bool
  | .ok response => response.errorMessage.isNone
  | .error _ => false

theorem reportResult_eq_ok_iff {linkState refusedState : String} {result : Result} :
    reportResult linkState refusedState result = .ok () ↔ Result.isSuccess result = true := by
  cases result with
  | error e => simp [reportResult, Result.isSuccess]
  | ok response => cases h : response.errorMessage <;> simp [reportResult, Result.isSuccess, h]

theorem isSuccess_scopeFailed (failure : ScopeFailure) :
    Result.isSuccess (scopeFailed failure) = false := by
  cases failure <;> rfl

theorem isSuccess_decodeResponse (root : Value) :
    Result.isSuccess (.ok (decodeResponse root)) = success root := by
  rw [Bool.eq_iff_iff, Result.isSuccess, Option.isNone_iff_eq_none]
  exact decodeResponse_errorMessage root

theorem prefix_useDatabase (name : Bytes) : lit "USE " <+: useDatabase name := by
  have huse : lit "USE " <+: lit "USE DATABASE " := by decide
  exact huse.trans (List.prefix_append _ _)

theorem prefix_useSchema (name : Bytes) : lit "USE " <+: useSchema name := by
  have huse : lit "USE " <+: lit "USE SCHEMA " := by decide
  exact huse.trans (List.prefix_append _ _)

theorem autocommitSql_false : autocommitSql false = autocommitOff := by decide

/-! ## Calls -/

theorem holds_flProtoRelease {post : Dbc → G → Prop} {dbc : Dbc} {g : G}
    (hfree : ∀ g q, (∀ p, q ≠ .post p) → M.allows g q)
    (hpost : ∀ g, post { dbc with sessionId := none } g) : M.Holds (flProtoRelease dbc) post g := by
  unfold flProtoRelease
  split
  · split
    · refine ⟨hfree _ _ (fun p h => by cases h), fun reply _ => ?_⟩
      exact Monitor.holds_pure (hpost _)
    · exact Monitor.holds_pure (hpost g)
  · exact Monitor.holds_pure (hpost g)

/-- `track_context` changes nothing but the names of the database and the schema. -/
theorem trackContext_eq (dbc : Dbc) (sql : Bytes) :
    ∃ database schema,
      trackContext dbc sql = { dbc with database := database, schema := schema } := by
  unfold trackContext
  dsimp only
  split
  · split
    · exact ⟨_, dbc.schema, rfl⟩
    · exact ⟨dbc.database, dbc.schema, rfl⟩
  · split
    · split
      · exact ⟨dbc.database, _, rfl⟩
      · exact ⟨dbc.database, dbc.schema, rfl⟩
    · exact ⟨dbc.database, dbc.schema, rfl⟩

/-- What `run_sql` makes of a response. -/
def sqlOutcome (stmt : Stmt) (sql : Bytes) : Result × Dbc → Except Diag Unit × Stmt × Dbc
  | (.error e, dbc) => (.error (flDiagSet "08S01" e.text), stmt, dbc)
  | (.ok response, dbc) =>
      match response.errorMessage with
      | some message => (.error (flDiagSet "42000" message), stmt, dbc)
      | none =>
          let stmt := { stmt with response := some response, currentSet := 0, currentRow := -1 }
          let rowCount :=
            match flStmtCurrentSet stmt with
            | some set =>
                let affected := flRowsAffected set
                if 0 ≤ affected then affected else set.rowCount
            | none => 0
          (.ok (), { stmt with rowCount := rowCount }, trackContext dbc sql)

theorem runSql_eq (stmt : Stmt) (sql : Bytes) (dbc : Dbc) :
    runSql stmt sql dbc = sqlOutcome (flStmtClearResults stmt) sql <$>
      flProtoExecuteCounted dbc sql stmt.multiStatementCount := by
  rw [map_eq_pure_bind]
  unfold runSql
  dsimp only
  congr 1
  funext ⟨result, d⟩
  cases result with
  | error e => rfl
  | ok response =>
    unfold sqlOutcome
    dsimp only
    cases response.errorMessage <;> rfl

/-- The condition `Inv` is kept by executions and by the mirror of `SQL_ATTR_AUTOCOMMIT`, and does not
depend on what else the calls change. -/
structure ExecutionsKeep (M : Monitor Request HttpReply G) (Inv : Dbc → G → Prop) : Prop where
  execute : ∀ {dbc : Dbc} {g : G} sql count, dbc.connected = true → Inv dbc g →
    M.Holds (flProtoExecuteCounted dbc sql count) (fun a g => Inv a.2 g) g
  autocommit : ∀ {dbc : Dbc} {g : G} wanted, Inv dbc g →
    M.Holds (setAutocommit wanted dbc) (fun a g => Inv a.2 g) g
  frame : ∀ {dbc : Dbc} {g : G} database schema loginTimeout, Inv dbc g →
    Inv { dbc with database := database, schema := schema, loginTimeout := loginTimeout } g

/-- The mirror of `SQL_ATTR_AUTOCOMMIT` keeps what its statement keeps. -/
theorem holds_mirror {Inv : Dbc → G → Prop} {dbc : Dbc} {g : G} (wanted : Bool)
    (hexec : dbc.connected = true →
      M.Holds (flProtoExecuteAs dbc (autocommitSql wanted) (-1) { tracked := false, recover := true })
        (fun a g => Inv a.2 g) g)
    (hset : ∀ d g, Inv d g → Inv { d with autocommit := wanted } g) (hinv : Inv dbc g) :
    M.Holds (setAutocommit wanted dbc) (fun a g => Inv a.2 g) g := by
  unfold setAutocommit
  split
  · next hsend =>
    rw [Bool.and_eq_true] at hsend
    apply (hexec hsend.1).bind
    rintro ⟨result, d⟩ g' hd
    dsimp only
    split
    · exact Monitor.holds_pure hd
    · exact Monitor.holds_pure (hset d g' hd)
  · exact Monitor.holds_pure (hset dbc g hinv)

namespace ExecutionsKeep

variable {Inv : Dbc → G → Prop} {dbc : Dbc} {g : G}

theorem trackContext (h : ExecutionsKeep M Inv) (hinv : Inv dbc g) (sql : Bytes) :
    Inv (trackContext dbc sql) g := by
  obtain ⟨database, schema, heq⟩ := trackContext_eq dbc sql
  rw [heq]
  exact h.frame database schema dbc.loginTimeout hinv

theorem holds_runSql (h : ExecutionsKeep M Inv) (hconn : dbc.connected = true) (hinv : Inv dbc g)
    (stmt : Stmt) (sql : Bytes) : M.Holds (runSql stmt sql dbc) (fun a g => Inv a.2.2 g) g := by
  apply (h.execute sql _ hconn hinv).bind
  rintro ⟨result, d⟩ g' hd
  cases result with
  | error e => exact Monitor.holds_pure hd
  | ok response =>
    dsimp only
    split
    · exact Monitor.holds_pure hd
    · exact Monitor.holds_pure (h.trackContext hd sql)

theorem holds_executeSql (h : ExecutionsKeep M Inv) (hconn : dbc.connected = true) (hinv : Inv dbc g)
    (stmt : Stmt) (sql : Bytes) : M.Holds (executeSql stmt sql dbc) (fun a g => Inv a.2.2 g) g := by
  unfold executeSql
  split
  · split
    · exact Monitor.holds_pure hinv
    · exact h.holds_runSql hconn hinv stmt _
  · exact h.holds_runSql hconn hinv stmt sql

theorem holds_sqlExecute (h : ExecutionsKeep M Inv) (hconn : dbc.connected = true) (hinv : Inv dbc g)
    (stmt : Stmt) : M.Holds (sqlExecute stmt dbc) (fun a g => Inv a.2.2 g) g := by
  unfold sqlExecute
  split
  · exact Monitor.holds_pure hinv
  · exact h.holds_executeSql hconn hinv stmt _

theorem holds_runCatalogQuery (h : ExecutionsKeep M Inv) (hconn : dbc.connected = true) (hinv : Inv dbc g)
    (sql : Bytes) : M.Holds (runCatalogQuery sql dbc) (fun a g => Inv a.2 g) g := by
  apply (h.execute sql (-1) hconn hinv).bind
  rintro ⟨result, d⟩ g' hd
  cases result with
  | error e => exact Monitor.holds_pure hd
  | ok response =>
    dsimp only
    split
    · exact Monitor.holds_pure hd
    · split <;> exact Monitor.holds_pure hd

theorem holds_sqlEndTran (h : ExecutionsKeep M Inv) (hinv : Inv dbc g) (commit : Bool) :
    M.Holds (sqlEndTran commit dbc) (fun a g => Inv a.2 g) g := by
  unfold sqlEndTran
  by_cases hconn : (!dbc.connected) = true
  · rw [if_pos hconn]
    exact Monitor.holds_pure hinv
  · rw [if_neg hconn]
    apply (h.execute _ (-1) (by simpa using hconn) hinv).bind
    rintro ⟨result, d⟩ g' hd
    exact Monitor.holds_pure hd

theorem holds_sqlSetConnectAttr (h : ExecutionsKeep M Inv) (hinv : Inv dbc g) (attr : ConnectAttr) :
    M.Holds (sqlSetConnectAttr attr dbc) (fun a g => Inv a.2 g) g := by
  cases attr with
  | autocommit wanted => exact h.autocommit wanted hinv
  | loginTimeout seconds => exact Monitor.holds_pure (h.frame dbc.database dbc.schema seconds hinv)
  | other => exact Monitor.holds_pure hinv
  | currentCatalog name =>
    show M.Holds (setCurrentCatalog name dbc) _ g
    unfold setCurrentCatalog
    by_cases hconn : (!dbc.connected) = true
    · rw [if_pos hconn]
      exact Monitor.holds_pure (h.frame (some name) dbc.schema dbc.loginTimeout hinv)
    · rw [if_neg hconn]
      apply (h.execute _ (-1) (by simpa using hconn) hinv).bind
      rintro ⟨result, d⟩ g' hd
      dsimp only
      split
      · exact Monitor.holds_pure hd
      · exact Monitor.holds_pure (h.frame (some name) d.schema d.loginTimeout hd)

section

variable (hclose : ∀ dbc g, Inv dbc g → M.Holds (sqlDisconnect dbc) (fun a g => Inv a.2 g) g)

include hclose

theorem holds_run (h : ExecutionsKeep M Inv) (hinv : Inv dbc g) (c : ConnectionCall) :
    M.Holds (c.run dbc) Inv g := by
  cases c with
  | execDirect stmt text length =>
    rw [ConnectionCall.run]
    split
    · next hconn => exact (h.holds_executeSql hconn hinv stmt _).map
    · exact Monitor.holds_pure hinv
  | execute stmt =>
    rw [ConnectionCall.run]
    split
    · next hconn => exact (h.holds_sqlExecute hconn hinv stmt).map
    · exact Monitor.holds_pure hinv
  | catalogQuery sql =>
    rw [ConnectionCall.run]
    split
    · next hconn => exact (h.holds_runCatalogQuery hconn hinv sql).map
    · exact Monitor.holds_pure hinv
  | endTran commit => exact (h.holds_sqlEndTran hinv commit).map
  | setConnectAttr attr => exact (h.holds_sqlSetConnectAttr hinv attr).map
  | disconnect => exact (hclose dbc g hinv).map

theorem holds_runCalls (h : ExecutionsKeep M Inv) (hinv : Inv dbc g) (calls : List ConnectionCall) :
    M.Holds (runCalls calls dbc) Inv g := by
  induction calls generalizing dbc g with
  | nil => exact Monitor.holds_pure hinv
  | cons c calls ih => exact (h.holds_run hclose hinv c).bind fun d g hd => ih hd

end

end ExecutionsKeep

/-- `Inv` is kept by closing the connection as well, whatever a release asks for. -/
structure CallsKeep (M : Monitor Request HttpReply G) (Inv : Dbc → G → Prop) : Prop
    extends ExecutionsKeep M Inv where
  free : ∀ g q, (∀ p, q ≠ .post p) → M.allows g q
  closed : ∀ (dbc : Dbc) (g : G), Inv { dbc with connected := false, sessionId := none } g

namespace CallsKeep

variable {Inv : Dbc → G → Prop} {dbc : Dbc} {g : G}

theorem holds_sqlDisconnect (h : CallsKeep M Inv) (hinv : Inv dbc g) :
    M.Holds (sqlDisconnect dbc) (fun a g => Inv a.2 g) g := by
  unfold sqlDisconnect
  split
  · exact Monitor.holds_pure hinv
  · exact (holds_flProtoRelease h.free fun g => h.closed dbc g).bind fun d g hd =>
      Monitor.holds_pure hd

theorem holds_runCalls (h : CallsKeep M Inv) (hinv : Inv dbc g) (calls : List ConnectionCall) :
    M.Holds (runCalls calls dbc) Inv g :=
  h.toExecutionsKeep.holds_runCalls (fun _ _ hinv => h.holds_sqlDisconnect hinv) hinv calls

end CallsKeep

/-! ## Connecting -/

/-- What holds after a call of which only a success matters. -/
def OnSuccess (post : Dbc → G → Prop) (a : ConnectResult) (g : G) : Prop := a.1 = .ok () → post a.2 g

variable {mid post : Dbc → G → Prop} {dbc : Dbc} {g : G}

theorem holds_onSuccess {p : Call ConnectResult} {k : Dbc → Call ConnectResult}
    (hp : M.Holds p (OnSuccess mid) g)
    (hk : ∀ d g, mid d g → M.Holds (k d) (OnSuccess post) g) :
    M.Holds (onSuccess p k) (OnSuccess post) g := by
  apply hp.bind
  rintro ⟨outcome, d⟩ g' hd
  cases outcome with
  | ok _ => exact hk d g' (hd rfl)
  | error diag =>
    refine Monitor.holds_pure fun h => ?_
    cases h

theorem holds_connectExecute (hfree : ∀ g q, (∀ p, q ≠ .post p) → M.allows g q) {sql : Bytes}
    (h : M.Holds (flProtoExecuteAs dbc sql (-1) { tracked := false, recover := false })
      (fun a g => Result.isSuccess a.1 = true → post a.2 g) g) (linkState : String) :
    M.Holds (connectExecute sql linkState dbc) (OnSuccess post) g := by
  -- a failure ends with an error, whatever the release does
  have hrelease : ∀ (d : Dbc) (diag : Diag) (g : G), M.Holds (do
      let dbc ← flProtoRelease d
      return ((.error diag, dbc) : ConnectResult)) (OnSuccess post) g := by
    intro d diag g
    have hany : M.Holds (flProtoRelease d) (fun _ _ => True) g :=
      holds_flProtoRelease hfree fun _ => trivial
    refine hany.bind fun d' g' _ => Monitor.holds_pure fun h => ?_
    cases h
  apply h.bind
  rintro ⟨result, d⟩ g' hd
  cases result with
  | error e => exact hrelease _ _ _
  | ok response =>
    dsimp only
    cases hm : response.errorMessage with
    | some message => exact hrelease _ _ _
    | none => exact Monitor.holds_pure fun _ => hd (by rw [Result.isSuccess, hm]; rfl)

/-- `S i` leads to `S (i + 1)` over each of the three statements of the scope at connect, sent or
not. -/
structure ConnectSteps (M : Monitor Request HttpReply G) (database schema : Option Bytes)
    (S : ℕ → Dbc → G → Prop) : Prop where
  useDatabase : ∀ d g, S 0 d g → hasName database = true →
    M.Holds (flProtoExecuteAs d (useDatabase (database.getD [])) (-1)
        { tracked := false, recover := false })
      (fun a g => Result.isSuccess a.1 = true → S 1 { a.2 with database := database } g) g
  noDatabase : ∀ d g, S 0 d g → hasName database = false → S 1 d g
  useSchema : ∀ d g, S 1 d g → hasName schema = true →
    M.Holds (flProtoExecuteAs d (useSchema (schema.getD [])) (-1)
        { tracked := false, recover := false })
      (fun a g => Result.isSuccess a.1 = true → S 2 { a.2 with schema := schema } g) g
  noSchema : ∀ d g, S 1 d g → hasName schema = false → S 2 d g
  turnOff : ∀ d g, S 2 d g → d.autocommit = false →
    M.Holds (flProtoExecuteAs d autocommitOff (-1) { tracked := false, recover := false })
      (fun a g => Result.isSuccess a.1 = true → S 3 a.2 g) g
  leaveOn : ∀ d g, S 2 d g → d.autocommit = true → S 3 d g

variable {database schema : Option Bytes} {S : ℕ → Dbc → G → Prop}

/-- A connect that succeeds ends in `S 3`, if the connection is opened in `S 0` after the probe. -/
theorem holds_doConnect (hfree : ∀ g q, (∀ p, q ≠ .post p) → M.allows g q)
    (hsteps : ConnectSteps M database schema S) (dbc : Dbc) (g : G)
    (hopen : ∀ d₀ path timeout reply,
      S 0 (openDbc database schema { dbc with host := some (dbc.host.getD (lit "localhost")) })
        (M.next g (.get d₀ path timeout) reply)) :
    M.Holds (doConnect database schema dbc) (OnSuccess (S 3)) g := by
  have hdatabase : ∀ d g, S 0 d g →
      M.Holds (connectDatabase database d) (OnSuccess (S 1)) g := by
    intro d g hd
    unfold connectDatabase
    split
    · next h =>
      have hsql : M.Holds (connectExecute (useDatabase (database.getD [])) "08001" d)
          (OnSuccess fun d g => S 1 { d with database := database } g) g :=
        holds_connectExecute hfree (hsteps.useDatabase d g hd h) _
      exact holds_onSuccess hsql fun d' g' hd' => Monitor.holds_pure fun _ => hd'
    · next h => exact Monitor.holds_pure fun _ => hsteps.noDatabase d g hd (by simpa using h)
  have hschema : ∀ d g, S 1 d g → M.Holds (connectSchema schema d) (OnSuccess (S 2)) g := by
    intro d g hd
    unfold connectSchema
    split
    · next h =>
      have hsql : M.Holds (connectExecute (useSchema (schema.getD [])) "08004" d)
          (OnSuccess fun d g => S 2 { d with schema := schema } g) g :=
        holds_connectExecute hfree (hsteps.useSchema d g hd h) _
      exact holds_onSuccess hsql fun d' g' hd' => Monitor.holds_pure fun _ => hd'
    · next h => exact Monitor.holds_pure fun _ => hsteps.noSchema d g hd (by simpa using h)
  have hautocommit : ∀ d g, S 2 d g → M.Holds (connectAutocommit d) (OnSuccess (S 3)) g := by
    intro d g hd
    unfold connectAutocommit
    split
    · next h => exact holds_connectExecute hfree (hsteps.turnOff d g hd (by simpa using h)) "08001"
    · next h => exact Monitor.holds_pure fun _ => hsteps.leaveOn d g hd (by simpa using h)
  -- an answer that ends the connect with an error
  have hfailed : ∀ (diag : Diag) (d : Dbc) (g : G),
      M.Holds (return ((.error diag, d) : ConnectResult)) (OnSuccess (S 3)) g := by
    intro diag d g
    refine Monitor.holds_pure fun h => ?_
    cases h
  refine ⟨hfree _ _ (fun p h => by cases h), fun reply _ => ?_⟩
  cases reply with
  | failed message => exact hfailed _ _ _
  | answered status body =>
    show M.Holds (if status ≠ 200 then _ else _) _ _
    split
    · exact hfailed _ _ _
    · exact holds_onSuccess (holds_onSuccess (hdatabase _ _ (hopen _ _ _ _)) hschema)
        hautocommit

/-! ## Connects that fail -/

/-- What a connect comes to: an open connection, or one that has failed. -/
structure Ends (Open Failed : Dbc → G → Prop) (a : ConnectResult) (g : G) : Prop where
  ok : a.1 = .ok () → Open a.2 g
  error : a.1 ≠ .ok () → Failed a.2 g

/-- The POSTs of an open connection keep `Open`, and a release leads from there to `Failed`. -/
structure ConnectKeeps (M : Monitor Request HttpReply G) (Open Failed : Dbc → G → Prop) : Prop
    extends PostsKeep M Open where
  named : ∀ {d : Dbc} {g : G} database schema, Open d g →
    Open { d with database := database, schema := schema } g
  release : ∀ {d : Dbc} {g : G}, Open d g →
    M.Holds (flProtoRelease { d with connected := false }) Failed g

section

variable {Open Failed : Dbc → G → Prop}

theorem ends_ok (h : Open dbc g) : Ends Open Failed (.ok (), dbc) g :=
  ⟨fun _ => h, fun hne => absurd rfl hne⟩

theorem ends_error {diag : Diag} (h : Failed dbc g) : Ends Open Failed (.error diag, dbc) g := by
  refine ⟨fun hok => ?_, fun _ => h⟩
  cases hok

theorem holds_onSuccess_ends {p : Call ConnectResult} {k : Dbc → Call ConnectResult}
    (hp : M.Holds p (Ends Open Failed) g)
    (hk : ∀ d g, Open d g → M.Holds (k d) (Ends Open Failed) g) :
    M.Holds (onSuccess p k) (Ends Open Failed) g := by
  apply hp.bind
  rintro ⟨outcome, d⟩ g' hd
  cases outcome with
  | ok _ => exact hk d g' (hd.ok rfl)
  | error diag => exact Monitor.holds_pure (ends_error (hd.error fun h => by cases h))

namespace ConnectKeeps

theorem holds_connectExecute (hkeeps : ConnectKeeps M Open Failed) (h : Open dbc g) (sql : Bytes)
    (linkState : String) : M.Holds (connectExecute sql linkState dbc) (Ends Open Failed) g := by
  -- a failure gives back what the connection holds
  have hrelease : ∀ (d : Dbc) (diag : Diag) (g : G), Open d g → M.Holds (do
      let dbc ← flProtoRelease { d with connected := false }
      return ((.error diag, dbc) : ConnectResult)) (Ends Open Failed) g := fun d diag g hd =>
    (hkeeps.release hd).bind fun d' g' hg => Monitor.holds_pure (ends_error hg)
  apply (hkeeps.holds_execute h sql (-1) _).bind
  rintro ⟨result, d⟩ g' hd
  cases result with
  | error e => exact hrelease d _ g' hd
  | ok response =>
    dsimp only
    cases response.errorMessage with
    | some message => exact hrelease d _ g' hd
    | none => exact Monitor.holds_pure (ends_ok hd)

/-- What the probe of a connect and the statements of its scope keep. -/
theorem holds_doConnect (hkeeps : ConnectKeeps M Open Failed) (database schema : Option Bytes)
    {dbc d : Dbc} (hd : d = { dbc with host := some (dbc.host.getD (lit "localhost")) })
    (hprobe : M.allows g (.get d (lit "/api/health") d.loginTimeout))
    (hfailed : ∀ reply, Failed d (M.next g (.get d (lit "/api/health") d.loginTimeout) reply))
    (hopen : ∀ reply, Open (openDbc database schema d)
      (M.next g (.get d (lit "/api/health") d.loginTimeout) reply)) :
    M.Holds (doConnect database schema dbc) (Ends Open Failed) g := by
  subst hd
  have hdatabase : ∀ d g, Open d g →
      M.Holds (connectDatabase database d) (Ends Open Failed) g := by
    intro d g hd
    unfold connectDatabase
    split
    · refine holds_onSuccess_ends (hkeeps.holds_connectExecute hd _ _) fun d' g' hd' => ?_
      exact Monitor.holds_pure (ends_ok (hkeeps.named database d'.schema hd'))
    · exact Monitor.holds_pure (ends_ok hd)
  have hschema : ∀ d g, Open d g → M.Holds (connectSchema schema d) (Ends Open Failed) g := by
    intro d g hd
    unfold connectSchema
    split
    · refine holds_onSuccess_ends (hkeeps.holds_connectExecute hd _ _) fun d' g' hd' => ?_
      exact Monitor.holds_pure (ends_ok (hkeeps.named d'.database schema hd'))
    · exact Monitor.holds_pure (ends_ok hd)
  have hautocommit : ∀ d g, Open d g → M.Holds (connectAutocommit d) (Ends Open Failed) g := by
    intro d g hd
    unfold connectAutocommit
    split
    · exact hkeeps.holds_connectExecute hd _ _
    · exact Monitor.holds_pure (ends_ok hd)
  refine ⟨hprobe, fun reply _ => ?_⟩
  cases reply with
  | failed message => exact Monitor.holds_pure (ends_error (hfailed _))
  | answered status body =>
    show M.Holds (if status ≠ 200 then _ else _) _ _
    split
    · exact Monitor.holds_pure (ends_error (hfailed _))
    · exact holds_onSuccess_ends (holds_onSuccess_ends (hdatabase _ _ (hopen _)) hschema)
        hautocommit

end ConnectKeeps

end

/-! ## Connects and calls -/

/-- A connect, and calls that keep `Inv` from where the connect ends. -/
theorem holds_connectAndRun {Inv : Dbc → G → Prop} (hcalls : CallsKeep M Inv)
    (hsteps : ConnectSteps M database schema S) (g : G)
    (hopen : ∀ d d₀ path timeout reply,
      S 0 (openDbc database schema d) (M.next g (.get d₀ path timeout) reply))
    (hinv : ∀ d g, S 3 d g → Inv d g) (calls : List ConnectionCall) (dbc : Dbc) :
    M.Holds (connectAndRun database schema calls dbc) (fun _ _ => True) g := by
  apply (holds_doConnect hcalls.free hsteps dbc g (hopen _)).bind
  rintro ⟨outcome, d⟩ g' hd
  cases outcome with
  | ok _ => exact (hcalls.holds_runCalls (hinv d g' (hd rfl)) calls).mono fun _ _ _ => trivial
  | error diag => exact Monitor.holds_pure trivial

end FrostlakeOdbc
