import FrostlakeOdbc.ConnectRule
import FrostlakeOdbc.IdentProof
import FrostlakeOdbc.StatementProof
import Mathlib.Data.List.TakeDrop

/-!
# The current catalog

`SQL_ATTR_CURRENT_CATALOG` reads what the connection was told last: by a connect, by
`SQLSetConnectAttr`, by an executed `USE DATABASE` or by a lost session that goes back to the scope.
Only the executed statement is decoded (`database_of_leadsTo`).
-/

namespace FrostlakeOdbc

open CString JsonText Exchange Client Scan

/-- What `SQL_ATTR_CURRENT_CATALOG` reads. -/
def currentCatalog (dbc : Dbc) : Bytes := dbc.database.getD []

/-! ## A lost session goes back to the scope -/

/-- The answer takes the session of its POST away: it refuses it, or another one was started in its
place. -/
def takesSession : Request → HttpReply → Bool
  | .post p, reply =>
      losesSession p reply || (answerTo p reply).any (replaces p.dbc.sessionId.isSome)
  | _, _ => false

/-- The monitor that remembers whether the session was lost. -/
def lossWatch : Monitor Request HttpReply Bool where
  next lost q reply := lost || takesSession q reply
  allows _ _ := True
  admits _ _ _ := True

theorem admits_lossWatch (lost : Bool) (t : Trace) : lossWatch.Admits lost t := by
  induction t generalizing lost with
  | nil => trivial
  | cons e t ih => exact ⟨trivial, ih _⟩

theorem after_lossWatch (lost : Bool) (t : Trace) :
    lossWatch.after lost t = (lost || t.any fun e => takesSession e.1 e.2) := by
  induction t generalizing lost with
  | nil => exact (Bool.or_false lost).symm
  | cons e t ih =>
    show lossWatch.after (lost || takesSession e.1 e.2) t = _
    rw [ih, List.any_cons, Bool.or_assoc]

/-- The database of the scope is `name`, and it is the current catalog if `h` holds or the session
was lost. -/
structure OnScope (h : Prop) (name : Bytes) (dbc : Dbc) (lost : Bool) : Prop where
  scope : dbc.scopeDatabase = some name
  catalog : h ∨ lost = true → dbc.database = some name

section

variable {h : Prop} {name : Bytes} {dbc : Dbc} {lost : Bool}

theorem OnScope.forget (hin : OnScope h name dbc lost) (lost' : Bool) :
    OnScope h name (forgetSession dbc) lost' :=
  ⟨hin.scope, fun _ => hin.scope⟩

theorem scopeDatabase_of_settings {a b : Dbc} (hab : a.settings = b.settings) :
    a.scopeDatabase = b.scopeDatabase := by
  show a.settings.scopeDatabase = b.settings.scopeDatabase
  rw [hab]

theorem database_flSessionNote (dbc : Dbc) (sql : Bytes) :
    (flSessionNote dbc sql).database = dbc.database := by
  obtain ⟨_, _, h⟩ := flSessionNote_eq dbc sql
  rw [h]

theorem OnScope.note (hin : OnScope h name dbc lost) (sql : Bytes) :
    OnScope h name (flSessionNote dbc sql) lost := by
  refine ⟨?_, fun hlost => ?_⟩
  · rw [scopeDatabase_of_settings (settings_flSessionNote dbc sql)]
    exact hin.scope
  · rw [database_flSessionNote]
    exact hin.catalog hlost

/-- An answer that is taken in. -/
theorem OnScope.absorbed {p : Post} {reply : HttpReply} {root : Value}
    (hin : OnScope h name p.dbc lost) (hans : answerTo p reply = some root) :
    OnScope h name (p.absorbed root) (lossWatch.next lost (.post p) reply) := by
  have hscope : (p.absorbed root).scopeDatabase = some name :=
    (scopeDatabase_of_settings (settings_absorbed p root)).trans hin.scope
  have hdatabase := database_absorbSession p.dbc root p.dbc.sessionId.isSome
  cases hreplaces : replaces p.dbc.sessionId.isSome root with
  | true =>
    rw [hreplaces, if_pos rfl] at hdatabase
    exact ⟨hscope, fun _ => hdatabase.trans hin.scope⟩
  | false =>
    rw [hreplaces, if_neg Bool.false_ne_true] at hdatabase
    refine ⟨hscope, fun hlost => hdatabase.trans (hin.catalog ?_)⟩
    refine hlost.imp_right fun hlost => ?_
    have hkept : losesSession p reply = false := by
      cases hloses : losesSession p reply with
      | false => rfl
      | true =>
        rw [answerTo_of_losesSession hloses] at hans
        cases hans
    show lost = true
    rw [← hlost]
    unfold lossWatch takesSession
    dsimp only
    rw [hkept, hans, Option.any_some, hreplaces]
    exact (Bool.or_false lost).symm

theorem lossWatch_failed {p : Post} {reply : HttpReply} (hnone : answerTo p reply = none)
    (hkept : losesSession p reply = false) (lost : Bool) :
    lossWatch.next lost (.post p) reply = lost := by
  unfold lossWatch takesSession
  dsimp only
  rw [hnone, hkept]
  exact Bool.or_false lost

theorem postsKeep_onScope : PostsKeep lossWatch (OnScope h name) where
  allows _ := trivial
  lost hin _ _ := hin.forget _
  failed {p lost reply} hin _ hnone hkept := by
    rw [lossWatch_failed hnone hkept lost]
    exact hin
  absorbed hin _ hans := hin.absorbed hans
  noted sql hin := hin.note sql
  settled hin := ⟨hin.scope, hin.catalog⟩

/-- A statement keeps the connection on its scope. -/
theorem holds_execute_onScope (hin : OnScope h name dbc lost) (sql : Bytes) (count : ℤ)
    (flags : ExecFlags) :
    lossWatch.Holds (flProtoExecuteAs dbc sql count flags) (fun a lost => OnScope h name a.2 lost)
      lost :=
  postsKeep_onScope.holds_execute hin sql count flags

/-- Statements one after the other. -/
def executeAll : List (Bytes × ℤ × ExecFlags) → Dbc → Call Dbc
  | [], dbc => return dbc
  | (sql, count, flags) :: rest, dbc => do
      let (_, dbc) ← flProtoExecuteAs dbc sql count flags
      executeAll rest dbc

theorem holds_executeAll_onScope (stmts : List (Bytes × ℤ × ExecFlags))
    (hin : OnScope h name dbc lost) :
    lossWatch.Holds (executeAll stmts dbc) (OnScope h name) lost := by
  induction stmts generalizing dbc lost with
  | nil => exact Monitor.holds_pure hin
  | cons stmt rest ih =>
    obtain ⟨sql, count, flags⟩ := stmt
    exact (holds_execute_onScope hin sql count flags).bind fun a lost ha => ih ha

theorem database_of_lost {stmts : List (Bytes × ℤ × ExecFlags)} {t : Trace} {d : Dbc}
    (hscope : dbc.scopeDatabase = some name) (hruns : Runs (executeAll stmts dbc) t d)
    (hlost : ∃ e ∈ t, takesSession e.1 e.2 = true) : d.database = some name := by
  have hstart : OnScope False name dbc false :=
    ⟨hscope, fun h => h.elim False.elim fun h => absurd h Bool.false_ne_true⟩
  have hend := ((holds_executeAll_onScope stmts hstart).runs hruns (admits_lossWatch false t)).2
  refine hend.catalog (.inr ?_)
  rw [after_lossWatch, Bool.false_or, List.any_eq_true]
  exact hlost

end

/-! ## Connecting -/

section

variable {name : Bytes} {dbc d : Dbc} {t : Trace}

/-- A connect leaves the name as it was given, through whatever happens to the session. -/
theorem database_doConnect (hname : name ≠ []) {schema : Option Bytes}
    (hruns : Runs (doConnect (some name) schema dbc) t (.ok (), d)) : d.database = some name := by
  have hhas : hasName (some name) = true := decide_eq_true hname
  have hsteps : ConnectSteps lossWatch (some name) schema fun i => OnScope (i ≠ 0) name :=
    { useDatabase := fun d lost hd _ => by
        refine (holds_execute_onScope hd _ _ _).mono fun a lost ha _ => ?_
        exact ⟨ha.scope, fun _ => rfl⟩
      noDatabase := fun d lost hd hno => by
        rw [hhas] at hno
        cases hno
      useSchema := fun d lost hd _ => by
        refine (holds_execute_onScope hd _ _ _).mono fun a lost ha _ => ?_
        exact ⟨ha.scope, fun _ => ha.catalog (.inl Nat.one_ne_zero)⟩
      noSchema := fun d lost hd _ => ⟨hd.scope, fun _ => hd.catalog (.inl Nat.one_ne_zero)⟩
      turnOff := fun d lost hd _ => by
        refine (holds_execute_onScope hd _ _ _).mono fun a lost ha _ => ?_
        exact ⟨ha.scope, fun _ => ha.catalog (.inl (Nat.succ_ne_zero 1))⟩
      leaveOn := fun d lost hd _ => ⟨hd.scope, fun _ => hd.catalog (.inl (Nat.succ_ne_zero 1))⟩ }
  have hopen : ∀ d₀ path timeout reply,
      OnScope (0 ≠ 0) name
        (openDbc (some name) schema { dbc with host := some (dbc.host.getD (lit "localhost")) })
        (lossWatch.next false (.get d₀ path timeout) reply) := by
    intro d₀ path timeout reply
    refine ⟨if_pos hhas, fun h => ?_⟩
    rcases h with h | h
    · exact absurd rfl h
    · cases h
  have hholds := holds_doConnect (fun _ _ _ => trivial) hsteps dbc false hopen
  have hend : OnScope (3 ≠ 0) name d _ := (hholds.runs hruns (admits_lossWatch false t)).2 rfl
  exact hend.catalog (.inl (Nat.succ_ne_zero 2))

theorem database_connectNamed {names : Named} (hname : name ≠ [])
    (hnames : names.database = some name) {portMessage : String}
    (hruns : Runs (connectNamed names portMessage dbc) t (.ok (), d)) : d.database = some name := by
  unfold connectNamed at hruns
  rw [hnames] at hruns
  dsimp only at hruns
  split at hruns
  · exact database_doConnect hname hruns
  · split at hruns
    · cases (runs_pure_iff.1 hruns).2
    · exact database_doConnect hname hruns

end

/-! ## Setting the attribute -/

section

variable {name : Bytes} {dbc d : Dbc} {t : Trace}

theorem database_setCurrentCatalog (hopen : dbc.connected = true)
    (hruns : Runs (setCurrentCatalog name dbc) t (.ok (), d)) : d.database = some name := by
  unfold setCurrentCatalog at hruns
  rw [hopen, Bool.not_true, if_neg Bool.false_ne_true] at hruns
  obtain ⟨t₁, t₂, ⟨result, d'⟩, -, -, hend⟩ := runs_bind_iff.1 hruns
  dsimp only at hend
  split at hend
  · cases (runs_pure_iff.1 hend).2
  · obtain ⟨-, heq⟩ := runs_pure_iff.1 hend
    rw [(Prod.mk.inj heq).2]

/-! ## Executing a `USE DATABASE` -/

theorem segments_useDatabase (name : Bytes) :
    segments flSqlSkip (useDatabase name) =
      segments flSqlSkip (lit "USE DATABASE ") ++ [ident name] := by
  have hwords : bland (lit "USE DATABASE") = true := by decide
  have hident : Scans flSqlSkip (ident name ++ []) [ident name] [] := scans_ident name (by simp)
  rw [List.append_nil] at hident
  unfold useDatabase
  exact ((scans_bland_blank hwords (ident name)).append hident).segments_eq

/-- A name has no markers, whatever is in it. -/
theorem countPlaceholders_useDatabase (name : Bytes) : countPlaceholders (useDatabase name) = 0 := by
  have hident : ident name ≠ marker := by
    obtain ⟨c, hhead, hc⟩ := head?_ident name
    intro hmarker
    rw [hmarker] at hhead
    cases hhead
    revert hc
    decide
  rw [countPlaceholders_eq, segments_useDatabase, List.count_append, List.count_cons_of_ne hident]
  decide

theorem trackContext_useDatabase (dbc : Dbc) (name : Bytes) :
    trackContext dbc (useDatabase name) = { dbc with database := some (denoted name) } := by
  have hfront : (useDatabase name).dropWhile
      (fun c => c = ch ' ' || c = ch '\t' || c = ch '\n' || c = ch '\r') = useDatabase name := by
    unfold useDatabase
    rfl
  have hwords : strncaseeq (useDatabase name) (lit "USE DATABASE ") 13 = true := by
    unfold useDatabase
    rfl
  have hname : (useDatabase name).drop 13 = ident name := by
    unfold useDatabase
    rfl
  unfold trackContext
  dsimp only
  rw [hfront, if_pos hwords, hname, trackedName_ident]

theorem database_runSql {stmt stmt' : Stmt}
    (hruns : Runs (runSql stmt (useDatabase name) dbc) t (.ok (), stmt', d)) :
    d.database = some (denoted name) := by
  obtain ⟨response, answered, -, rfl⟩ := runSql_ok hruns
  rw [trackContext_useDatabase]

theorem database_executeSql {stmt stmt' : Stmt}
    (hruns : Runs (executeSql stmt (useDatabase name) dbc) t (.ok (), stmt', d)) :
    d.database = some (denoted name) := by
  unfold executeSql at hruns
  rw [countPlaceholders_useDatabase, decide_eq_false (Nat.lt_irrefl 0), Bool.and_false,
    if_neg Bool.false_ne_true] at hruns
  exact database_runSql hruns

end

/-! ## Every way there -/

/-- The calls that set the current catalog. -/
inductive Route : Type where
  | connect
  | driverConnect
  | setConnectAttr
  | execDirect
  | execute
  | putBack
  deriving DecidableEq

/-- The routes on which the driver decodes the name. -/
def Route.decodes : Route → Bool
  | .execDirect | .execute => true
  | _ => false

/-- `LeadsTo name route dbc`: a successful call along the route leaves the connection `dbc`. -/
inductive LeadsTo (name : Bytes) : Route → Dbc → Prop where
  | connect {ini : IniFile} {serverName : Bytes} {length : ℤ} {dbc d : Dbc} {t : Trace}
      (hnamed : (connectNames ini (copyText 256 serverName length)).database = some name)
      (hruns : Runs (sqlConnect ini serverName length dbc) t (.ok (), d)) : LeadsTo name .connect d
  | driverConnect {ini : IniFile} {conn : Bytes} {length : ℤ} {dbc d : Dbc} {t : Trace} {out : Bytes}
      (hnamed : (driverConnectNames ini (copyText 2048 conn length)).database = some name)
      (hruns : Runs (sqlDriverConnect ini conn length dbc) t (.ok out, d)) :
      LeadsTo name .driverConnect d
  | setConnectAttr {dbc d : Dbc} {t : Trace} (hopen : dbc.connected = true)
      (hruns : Runs (sqlSetConnectAttr (.currentCatalog name) dbc) t (.ok (), d)) :
      LeadsTo name .setConnectAttr d
  | execDirect {stmt stmt' : Stmt} {text : Bytes} {length : ℤ} {dbc d : Dbc} {t : Trace}
      (hsql : copySql text length = useDatabase name)
      (hruns : Runs (sqlExecDirect stmt text length dbc) t (.ok (), stmt', d)) :
      LeadsTo name .execDirect d
  | execute {stmt stmt' : Stmt} {dbc d : Dbc} {t : Trace}
      (hsql : stmt.preparedSql = some (useDatabase name))
      (hruns : Runs (sqlExecute stmt dbc) t (.ok (), stmt', d)) : LeadsTo name .execute d
  | putBack {stmts : List (Bytes × ℤ × ExecFlags)} {dbc d : Dbc} {t : Trace}
      (hscope : dbc.scopeDatabase = some name) (hruns : Runs (executeAll stmts dbc) t d)
      (hlost : ∃ e ∈ t, takesSession e.1 e.2 = true) : LeadsTo name .putBack d

/-- What the current catalog is at the end of each route. -/
theorem database_of_leadsTo {name : Bytes} (hname : name ≠ []) {route : Route} {dbc : Dbc}
    (h : LeadsTo name route dbc) :
    dbc.database = some (if route.decodes then denoted name else name) := by
  cases h with
  | connect hnamed hruns =>
    unfold sqlConnect at hruns
    split at hruns
    · cases (runs_pure_iff.1 hruns).2
    · exact database_connectNamed hname hnamed hruns
  | driverConnect hnamed hruns =>
    unfold sqlDriverConnect at hruns
    split at hruns
    · cases (runs_pure_iff.1 hruns).2
    · obtain ⟨t₁, t₂, ⟨outcome, d'⟩, -, hconnect, hend⟩ := runs_bind_iff.1 hruns
      obtain ⟨-, heq⟩ := runs_pure_iff.1 hend
      obtain ⟨hok, rfl⟩ := Prod.mk.inj heq
      cases outcome with
      | error diag => cases hok
      | ok u => exact database_connectNamed hname hnamed hconnect
  | setConnectAttr hopen hruns => exact database_setCurrentCatalog hopen hruns
  | execDirect hsql hruns =>
    unfold sqlExecDirect at hruns
    rw [hsql] at hruns
    exact database_executeSql hruns
  | execute hsql hruns =>
    unfold sqlExecute at hruns
    rw [hsql] at hruns
    exact database_executeSql hruns
  | putBack hscope hruns hlost => exact database_of_lost hscope hruns hlost

/-- The current catalog is the one the name denotes where the name was executed, or denotes
itself. -/
theorem currentCatalog_eq_denoted_iff {name : Bytes} (hname : name ≠ []) {route : Route} {dbc : Dbc}
    (h : LeadsTo name route dbc) :
    currentCatalog dbc = denoted name ↔ route.decodes = true ∨ DenotesItself name := by
  unfold currentCatalog
  rw [database_of_leadsTo hname h, Option.getD_some]
  cases route.decodes with
  | true => exact iff_of_true rfl (.inl rfl)
  | false =>
    rw [if_neg Bool.false_ne_true, eq_comm, denoted_eq_self_iff]
    exact (or_iff_right Bool.false_ne_true).symm

/-- A new handle that was connected with `Database=name` to a server that accepts everything. -/
def connectedTo (name : Bytes) : Dbc :=
  { allocDbc with
    connected := true
    host := some (lit "localhost")
    database := some name
    scopeDatabase := some name }

theorem leadsTo_upper : LeadsTo (lit "DEMO") .driverConnect (connectedTo (lit "DEMO")) := by
  obtain ⟨t, hruns⟩ := runs_serve answersOk
    (sqlDriverConnect (fun _ _ => []) (lit "Database=DEMO") sqlNts allocDbc) ()
  exact .driverConnect rfl hruns

theorem currentCatalog_eq_denoted_iff_upper :
    lit "DEMO" ≠ [] ∧ LeadsTo (lit "DEMO") .driverConnect (connectedTo (lit "DEMO")) ∧
      (currentCatalog (connectedTo (lit "DEMO")) = denoted (lit "DEMO") ↔
        Route.driverConnect.decodes = true ∨ DenotesItself (lit "DEMO")) :=
  ⟨by decide, leadsTo_upper, currentCatalog_eq_denoted_iff (by decide) leadsTo_upper⟩

/-- A connect with `Database=demo` and an executed `USE DATABASE demo` leave different catalogs. -/
theorem currentCatalog_lower :
    ∃ d d', LeadsTo (lit "demo") .driverConnect d ∧ LeadsTo (lit "demo") .execDirect d' ∧
      currentCatalog d ≠ currentCatalog d' ∧ currentCatalog d ≠ denoted (lit "demo") := by
  obtain ⟨t, hconnect⟩ := runs_serve answersOk
    (sqlDriverConnect (fun _ _ => []) (lit "Database=demo") sqlNts allocDbc) ()
  obtain ⟨t', hexec⟩ := runs_serve answersOk
    (sqlExecDirect freshStmt (lit "USE DATABASE demo") sqlNts (connectedTo (lit "demo"))) ()
  let used : Dbc :=
    { connectedTo (lit "demo") with database := some (lit "DEMO"), sessionDirty := true }
  refine ⟨connectedTo (lit "demo"), used, .driverConnect rfl hconnect, .execDirect rfl hexec, ?_, ?_⟩
  · decide
  · decide

/-! ## What setting it sends -/

/-- Every statement that setting the current catalog POSTs is the one a connect sends for the name. -/
def SendsUseDatabase (name : Bytes) (dbc : Dbc) : Prop :=
  ∀ t a, Runs (sqlSetConnectAttr (.currentCatalog name) dbc) t a → ∀ e ∈ t, ∀ p, e.1 = .post p →
    e.1.isStatement = true → p.decodedSql = some (useDatabase name)

/-- What the case of `SQL_ATTR_CURRENT_CATALOG` prints. -/
def printedUse (name : Bytes) : Bytes := snprintf 600 (lit "USE DATABASE " ++ name)

/-- What it makes of the answer. -/
def catalogOutcome (name : Bytes) : Result × Dbc → Except Diag Unit × Dbc
  | (result, dbc) =>
      match reportResult "HY000" "HY000" result with
      | .error diag => (.error diag, dbc)
      | .ok () => (.ok (), { dbc with database := some name })

theorem setCurrentCatalog_eq {name : Bytes} {dbc : Dbc} (hopen : dbc.connected = true) :
    sqlSetConnectAttr (.currentCatalog name) dbc =
      catalogOutcome name <$> flProtoExecute dbc (printedUse name) := by
  rw [map_eq_pure_bind]
  unfold sqlSetConnectAttr setCurrentCatalog
  dsimp only
  rw [hopen, Bool.not_true, if_neg Bool.false_ne_true]
  congr 1
  funext ⟨result, d⟩
  unfold catalogOutcome
  dsimp only
  cases reportResult "HY000" "HY000" result <;> rfl

theorem sendsUseDatabase_iff_printed {name : Bytes} {dbc : Dbc} (hname : 0 ∉ name)
    (hopen : dbc.connected = true) : SendsUseDatabase name dbc ↔ printedUse name = useDatabase name := by
  have hzero : 0 ∉ printedUse name := by
    intro h
    rcases List.mem_append.1 (List.mem_of_mem_take h) with h | h
    · revert h
      decide
    · exact hname h
  have hdecoded : ∀ p : Post, p.sql = printedUse name ∧ p.count = -1 →
      p.decodedSql = some (printedUse name) := by
    rintro p ⟨hsql, hcount⟩
    rw [decodedSql_eq (by rw [hcount]; decide), hsql, cstr_eq_self hzero]
  unfold SendsUseDatabase
  rw [setCurrentCatalog_eq hopen]
  constructor
  · intro h
    obtain ⟨t, response, d, hexec, -, -, e, he, p, hp, hstmt⟩ := runs_execute_ok dbc (printedUse name) (-1)
      { tracked := true, recover := true }
    have hsent := h t _ (runs_map_iff.2 ⟨_, hexec, rfl⟩) e he p hp hstmt
    rw [hdecoded p (posts_execute hexec he hp hstmt)] at hsent
    exact Option.some.inj hsent
  · intro h t a hrun e he p hp hstmt
    obtain ⟨result, hexec, -⟩ := runs_map_iff.1 hrun
    rw [hdecoded p (posts_execute hexec he hp hstmt), h]

theorem printedUse_eq_iff {name : Bytes} :
    printedUse name = useDatabase name ↔
      (identIsBare name = true ∨ identIsQuoted name = true) ∧ name.length ≤ 586 := by
  have hprinted : printedUse name = lit "USE DATABASE " ++ name.take 586 := rfl
  rw [hprinted, useDatabase, List.append_cancel_left_eq]
  have htake : name.take 586 = name ↔ name.length ≤ 586 := List.take_eq_self_iff name
  obtain ⟨heq, hbare⟩ | ⟨body, heq, hpaired, hname⟩ := ident_cases name
  · rw [heq, htake, hbare]
    simp
  · obtain rfl | ⟨hbare, hquoted, rfl⟩ := hname
    · rw [heq, htake, identIsQuoted_iff.2 ⟨body, rfl, hpaired⟩]
      simp
    · rw [heq, hbare, hquoted]
      -- the quotes alone make it longer
      refine iff_of_false (fun h => ?_) (by simp)
      have hlen := congrArg List.length h
      have hdoubled := length_undoubleQuotes_le (name.flatMap doubleQuote)
      rw [undoubleQuotes_doubled] at hdoubled
      unfold inQuotes at hlen
      rw [List.length_take, List.length_cons, List.length_append, List.length_singleton] at hlen
      omega

/-- Setting the current catalog sends what a connect sends, one statement that names one identifier,
exactly for a name that stands for itself in a statement and leaves room for the words before it. -/
theorem sendsUseDatabase_iff {name : Bytes} {dbc : Dbc} (hname : 0 ∉ name)
    (hopen : dbc.connected = true) :
    SendsUseDatabase name dbc ↔
      (identIsBare name = true ∨ identIsQuoted name = true) ∧ name.length ≤ 586 :=
  (sendsUseDatabase_iff_printed hname hopen).trans printedUse_eq_iff

theorem sendsUseDatabase_iff_demo : SendsUseDatabase (lit "demo") sessionDbc :=
  (sendsUseDatabase_iff (by decide) rfl).2 (by decide)

/-- A second statement goes along. -/
theorem sendsUseDatabase_drop : ¬SendsUseDatabase (lit "A; DROP DATABASE B") sessionDbc := by
  rw [sendsUseDatabase_iff_printed (by decide) rfl]
  decide

end FrostlakeOdbc
