import FrostlakeOdbc.ConnectRule
import FrostlakeOdbc.RecoveryProof
import FrostlakeOdbc.RequestProof
import FrostlakeOdbc.SessionHistory
import FrostlakeOdbc.SubstitutionProof

/-!
# What of a statement reaches the server

A statement is put together by its length and sent as a C string, so what follows a NUL byte of a
parameter is lost on the way. It arrives whole exactly if no parameter in it has such a byte
(`executeSql_sendsWhole_iff`).
-/

namespace FrostlakeOdbc

open CString JsonText Exchange Client Scan

/-! ## The statement in a request -/

/-- The `sql` value of a request, read back from its JSON. -/
def Post.decodedSql (p : Post) : Option Bytes :=
  match flJsonGet (flJsonParse p.body) (lit "sql") with
  | some (.string text) => some text
  | _ => none

theorem decodedSql_eq {p : Post} (hcount : p.count < 2 ^ 63) : p.decodedSql = some (cstr p.sql) := by
  unfold Post.decodedSql Post.body
  rw [← buildRequestJson_cstr, flJsonParse_buildRequestJson (zero_notMem_cstr p.sql) ?_
    fun h0 => length_intText_lt h0 hcount]
  · rfl
  · intro id hid
    obtain ⟨id', -, rfl⟩ := Option.map_eq_some_iff.1 hid
    exact zero_notMem_cstr id'

/-! ## What an execution sends -/

theorem SendsOnce.exists_sent {flags : ExecFlags} {sql : Bytes} {count : ℤ} {stmts : List Bytes}
    {t : Trace} {a : Result} (h : SendsOnce flags sql count stmts t a) :
    ∃ e ∈ t, e.1.isStatement = true := by
  cases h with
  | once => exact ⟨_, List.mem_cons_self .., rfl⟩
  | scopeFails => exact ⟨_, List.mem_cons_self .., rfl⟩
  | twice => exact ⟨_, List.mem_cons_self .., rfl⟩

/-- The part of `run_sql` behind the execution sends nothing, and reports what went wrong. -/
theorem runs_runSql {stmt : Stmt} {sql : Bytes} {dbc : Dbc} {t : Trace}
    {a : Except Diag Unit × Stmt × Dbc} (h : Runs (runSql stmt sql dbc) t a) :
    ∃ result, Runs (flProtoExecuteCounted dbc sql stmt.multiStatementCount) t result ∧
      (Result.isSuccess result.1 = false → ∃ diag, a.1 = .error diag) := by
  rw [runSql_eq] at h
  obtain ⟨⟨result, dbc'⟩, hexec, rfl⟩ := runs_map_iff.1 h
  refine ⟨_, hexec, fun hfail => ?_⟩
  cases result with
  | error e => exact ⟨_, rfl⟩
  | ok response =>
    obtain ⟨message, hmessage⟩ : ∃ message, response.errorMessage = some message :=
      Option.isSome_iff_exists.1 (by simpa [Result.isSuccess] using hfail)
    unfold sqlOutcome
    dsimp only
    rw [hmessage]
    exact ⟨_, rfl⟩

/-- A statement that succeeds was executed, and its context is tracked. -/
theorem runSql_ok {stmt stmt' : Stmt} {sql : Bytes} {dbc d : Dbc} {t : Trace}
    (hruns : Runs (runSql stmt sql dbc) t (.ok (), stmt', d)) :
    ∃ response answered, Runs (flProtoExecuteCounted dbc sql stmt.multiStatementCount) t
      (.ok response, answered) ∧ d = trackContext answered sql := by
  rw [runSql_eq] at hruns
  obtain ⟨⟨result, answered⟩, hexec, heq⟩ := runs_map_iff.1 hruns
  cases result with
  | error e => cases heq
  | ok response =>
    unfold sqlOutcome at heq
    dsimp only at heq
    split at heq
    · cases heq
    · exact ⟨response, answered, hexec, (Prod.mk.inj (Prod.mk.inj heq).2).2⟩

/-- Every POST of the statement holds it as `run_sql` is given it, and where there is none the
execution failed. -/
theorem posts_runSql {stmt : Stmt} {sql : Bytes} {dbc : Dbc} {t : Trace}
    {a : Except Diag Unit × Stmt × Dbc} (h : Runs (runSql stmt sql dbc) t a) :
    (∀ e ∈ t, ∀ p, e.1 = .post p → e.1.isStatement = true →
      p.sql = sql ∧ p.count = stmt.multiStatementCount) ∧
    ((∀ e ∈ t, e.1.isStatement = false) → ∃ diag, a.1 = .error diag) := by
  obtain ⟨result, hexec, herror⟩ := runs_runSql h
  refine ⟨fun e he p hp hstmt => posts_execute hexec he hp hstmt, fun hnone => herror ?_⟩
  obtain ⟨t₁, t₂, rfl, -, -, hsends⟩ := runs_execute hexec
  rcases hsends with ⟨-, f, hf⟩ | hsends
  · rw [hf]
    exact isSuccess_scopeFailed f
  · obtain ⟨e, he, hstmt⟩ := hsends.exists_sent
    rw [hnone e (List.mem_append_right t₁ he)] at hstmt
    cases hstmt

/-! ## A run that gets there -/

/-- An answer that says no more than that the statement succeeded. -/
def okReply : HttpReply := .answered 200 (lit "\x7b\"success\":true\x7d")

/-- The server that answers everything with it. -/
def answersOk (u : Unit) (_ : Request) : HttpReply × Unit := (okReply, u)

theorem readReply_okReply :
    ∃ response, response.errorMessage = none ∧
      ∀ dbc, readReply dbc okReply = (.answered response, dbc) := by
  refine ⟨decodeResponse (.object [(lit "success", .bool true)]), rfl, fun dbc => ?_⟩
  have hparse : flJsonParse (cstr (lit "\x7b\"success\":true\x7d")) =
      some (.object [(lit "success", .bool true)]) := rfl
  unfold readReply okReply
  dsimp only
  rw [hparse]
  dsimp only
  rw [refusesSession, decide_eq_false (by decide : ¬(200 : ℤ) = 404), Bool.and_false]
  rfl

/-- Where every answer is a success, the scope goes on. -/
theorem runs_sendScope_ok (whenGone : Dbc → Call (ScopeOutcome × Dbc)) (dbc : Dbc) :
    ∀ (i : ℕ) (stmts : List Bytes), ∃ t, Runs (sendScope whenGone i stmts dbc) t (none, dbc) ∧
      ∀ e ∈ t, e.2 = okReply
  | _, [] => ⟨[], .done _, fun _ he => absurd he List.not_mem_nil⟩
  | i, sql :: rest => by
      obtain ⟨t, ht, hok⟩ := runs_sendScope_ok whenGone dbc (i + 1) rest
      obtain ⟨response, hmessage, hreply⟩ := readReply_okReply
      refine ⟨_, runs_post_bind_iff.2 ⟨okReply, t, rfl, ?_⟩, List.forall_mem_cons.2 ⟨rfl, hok⟩⟩
      rw [hreply]
      dsimp only
      rw [hmessage]
      exact ht

theorem runs_applyScope_ok (dbc : Dbc) :
    ∃ t, Runs (applyScope dbc) t (none, { dbc with scopePending := false }) ∧
      ∀ e ∈ t, e.2 = okReply := by
  obtain ⟨t, ht, hok⟩ :=
    runs_sendScope_ok (restartScope (scopeStatements dbc)) dbc 0 (scopeStatements dbc)
  have happly := ht.bind (f := fun outcome => pure (settleScope outcome)) (.done _)
  exact ⟨_, happly, by simpa using hok⟩

/-- Where the scope goes on, the statement is POSTed, and its answer ends the execution. -/
theorem runs_execute_answered (dbc : Dbc) (sql : Bytes) (count : ℤ) (flags : ExecFlags)
    {reply : HttpReply} {response : Response}
    (hreply : ∀ d, readReply d reply = (.answered response, d)) :
    ∃ t d d', Runs (flProtoExecuteAs dbc sql count flags) (t ++ [sent flags sql count d reply])
      (.ok response, d') ∧ ∀ e ∈ t, e.2 = okReply ∧ e.1.isStatement = false := by
  have hscope : ∃ t d, Runs (if dbc.scopePending then applyScope dbc else return (none, dbc)) t
      ((none, d) : ScopeOutcome × Dbc) ∧ ∀ e ∈ t, e.2 = okReply ∧ e.1.isStatement = false := by
    split
    · obtain ⟨t, ht, hok⟩ := runs_applyScope_ok dbc
      refine ⟨t, _, ht, fun e he => ⟨hok e he, ?_⟩⟩
      exact ((putsScope_applyScope ht).isScope e he).isStatement
    · exact ⟨[], dbc, .done _, fun _ he => absurd he List.not_mem_nil⟩
  obtain ⟨t, d, ht, hok⟩ := hscope
  have hfirst : Runs (sendFirst sql count flags d) [sent flags sql count d reply]
      (finish flags sql (.answered response, d)) := by
    refine runs_post_bind_iff.2 ⟨reply, [], rfl, ?_⟩
    rw [hreply]
    exact .done _
  exact ⟨t, d, _, ht.bind hfirst, hok⟩

/-- Where every answer is a success, the statement is POSTed and succeeds. -/
theorem runs_execute_ok (dbc : Dbc) (sql : Bytes) (count : ℤ) (flags : ExecFlags) :
    ∃ t response d, Runs (flProtoExecuteAs dbc sql count flags) t (.ok response, d) ∧
      response.errorMessage = none ∧ (∀ e ∈ t, e.2 = okReply) ∧
      ∃ e ∈ t, ∃ p, e.1 = .post p ∧ e.1.isStatement = true := by
  obtain ⟨response, hmessage, hreply⟩ := readReply_okReply
  obtain ⟨t, d, d', hruns, hok⟩ := runs_execute_answered dbc sql count flags hreply
  refine ⟨_, response, d', hruns, hmessage, fun e he => ?_,
    _, List.mem_append_right t (List.mem_singleton_self _), _, rfl, rfl⟩
  rcases List.mem_append.1 he with he | he
  · exact (hok e he).1
  · rw [List.mem_singleton.1 he]
    rfl

/-- Behind an execution that succeeded `run_sql` succeeds, and tracks the statement. -/
theorem runs_runSql_ok {stmt : Stmt} {sql : Bytes} {dbc d : Dbc} {t : Trace} {response : Response}
    (hexec : Runs (flProtoExecuteCounted dbc sql stmt.multiStatementCount) t (.ok response, d))
    (hmessage : response.errorMessage = none) :
    ∃ stmt', Runs (runSql stmt sql dbc) t (.ok (), stmt', trackContext d sql) := by
  refine ⟨(sqlOutcome (flStmtClearResults stmt) sql (.ok response, d)).2.1, ?_⟩
  rw [runSql_eq]
  refine runs_map_iff.2 ⟨_, hexec, ?_⟩
  unfold sqlOutcome
  dsimp only
  rw [hmessage]

/-- Some run of `run_sql` POSTs the statement and succeeds. -/
theorem exists_runs_runSql (stmt : Stmt) (sql : Bytes) (dbc : Dbc) :
    ∃ t stmt' d, Runs (runSql stmt sql dbc) t (.ok (), stmt', d) ∧ (∀ e ∈ t, e.2 = okReply) ∧
      ∃ e ∈ t, ∃ p, e.1 = .post p ∧ e.1.isStatement = true := by
  obtain ⟨t, response, d, ht, hmessage, hok, hpost⟩ :=
    runs_execute_ok dbc sql stmt.multiStatementCount { tracked := true, recover := true }
  obtain ⟨stmt', hrun⟩ := runs_runSql_ok ht hmessage
  exact ⟨t, stmt', _, hrun, hok, hpost⟩

/-! ## What a statement is put together from -/

/-- A bound character parameter with an explicit length. -/
def BoundParam.IsText (param : BoundParam) : Prop :=
  param.bound = true ∧ ∃ memory n, param.buffer = some (.char memory) ∧ param.strLenOrInd = some n ∧
    0 ≤ n

/-- The bytes of a character parameter. -/
def BoundParam.text (param : BoundParam) : Bytes :=
  match param.buffer with
  | some (.char memory) => bufferText memory param.indicator
  | _ => []

/-- The statement that a template and its parameters make: with a parameter bound, each marker gives
way to the whole literal of its parameter. -/
def IsWhole (params : List BoundParam) (sql statement : Bytes) : Prop :=
  if hasBoundParams params then
    ∃ literals, literals.length = countPlaceholders sql ∧
      List.Forall₂ Contributes (params.take (countPlaceholders sql)) literals ∧
      statement = (fill (fun literal => [literal]) (segments flSqlSkip sql) literals).flatten
  else statement = sql

/-- An execution that fails before it sends its statement, or sends the whole of it with every
POST. -/
def SendsWhole (params : List BoundParam) (sql : Bytes)
    (call : Call (Except Diag Unit × Stmt × Dbc)) : Prop :=
  ∀ t a, Runs call t a →
    ((∀ e ∈ t, e.1.isStatement = false) → ∃ diag, a.1 = .error diag) ∧
    ∀ e ∈ t, ∀ p, e.1 = .post p → e.1.isStatement = true →
      ∃ statement, IsWhole params sql statement ∧ p.decodedSql = some statement

/-- The template is refused for its parameters, or none of the parameters it takes holds a NUL byte. -/
def Intact (params : List BoundParam) (sql : Bytes) : Prop :=
  params.length < countPlaceholders sql ∨
    (∃ param ∈ params.take (countPlaceholders sql),
      param.sqlType.isNumeric = true ∧ isNumericLiteral param.text = false) ∨
    ∀ param ∈ params.take (countPlaceholders sql), 0 ∉ param.text

theorem appendParamLiteral_text {param : BoundParam} (h : param.IsText) :
    appendParamLiteral param = appendCharLiteral param.sqlType param.text := by
  obtain ⟨hbound, memory, n, hbuffer, hind, hn⟩ := h
  have hindicator : param.indicator = n := by rw [BoundParam.indicator, hind, Option.getD_some]
  rw [appendParamLiteral_of_length hbound hbuffer (.inr (hindicator ▸ hn))]
  unfold BoundParam.text
  rw [hbuffer]
  rfl

theorem cast_zero (sqlType : SqlType) : 0 ∉ sqlType.cast := by
  unfold SqlType.cast
  split <;> decide

theorem zero_mem_escapeStringByte {c : UInt8} : 0 ∈ escapeStringByte c ↔ 0 = c := by
  unfold escapeStringByte
  split_ifs <;> simp

/-- A literal of a character value holds a NUL byte exactly if the value does. -/
theorem zero_mem_appendCharLiteral {sqlType : SqlType} {text literal : Bytes}
    (h : appendCharLiteral sqlType text = .ok literal) : 0 ∈ literal ↔ 0 ∈ text := by
  unfold appendCharLiteral at h
  split_ifs at h
  · cases h
    unfold appendNumber
    split_ifs
    · have hparens : 0 ∉ lit "(" ∧ 0 ∉ lit ")" := by decide
      rw [List.mem_append, List.mem_append, or_iff_left hparens.2, or_iff_right hparens.1]
    · rfl
  · cases h
    have hquote : 0 ∉ lit "'" := by decide
    rw [appendStringLiteral, List.mem_append, List.mem_append, List.mem_append,
      or_iff_left (cast_zero sqlType), or_iff_left hquote, or_iff_right hquote, List.mem_flatMap]
    simp only [zero_mem_escapeStringByte, exists_eq_right']

/-- What the statement holds is held by a segment that is no marker, or by a literal. -/
theorem mem_fill {c : UInt8} : ∀ {segs literals : List Bytes},
    literals.length = segs.count marker →
      (c ∈ (fill (fun literal => [literal]) segs literals).flatten ↔
        (∃ s ∈ segs, s ≠ marker ∧ c ∈ s) ∨ ∃ l ∈ literals, c ∈ l)
  | [], literals, h => by
      obtain rfl : literals = [] := List.length_eq_zero_iff.1 h
      simp [fill]
  | s :: segs, literals, h => by
      by_cases hmark : s = marker
      · subst hmark
        rw [List.count_cons_self] at h
        cases literals with
        | nil => cases h
        | cons l literals =>
          rw [fill_marker, List.singleton_append, List.flatten_cons, List.mem_append,
            mem_fill (Nat.succ.inj h)]
          simp only [List.mem_cons, exists_eq_or_imp, ne_eq, not_true_eq_false, false_and, false_or]
          exact or_left_comm
      · rw [List.count_cons_of_ne hmark] at h
        rw [fill_segment _ hmark, List.flatten_cons, List.mem_append, mem_fill h]
        simp only [List.mem_cons, exists_eq_or_imp, ne_eq, hmark, not_false_eq_true, true_and,
          or_assoc]

section

variable {params : List BoundParam} {sql statement result : Bytes}

theorem notMem_segment {c : UInt8} (h : c ∉ sql) :
    ¬∃ s ∈ segments flSqlSkip sql, s ≠ marker ∧ c ∈ s := by
  rintro ⟨s, hs, -, hc⟩
  apply h
  rw [← flatten_segments flSqlSkip sql]
  exact List.mem_flatten.2 ⟨s, hs, hc⟩

/-- What is substituted is the whole statement, and the only one. -/
theorem isWhole_iff (hbound : hasBoundParams params = true)
    (h : substituteParams params sql = .ok result) :
    IsWhole params sql statement ↔ statement = result := by
  obtain ⟨literals, hrendered, hcount, rfl⟩ := substituteParamsFrom_fill sql.length le_rfl h
  rw [← countPlaceholders_eq] at hrendered hcount
  unfold IsWhole
  rw [if_pos hbound]
  constructor
  · rintro ⟨literals', -, hcontributes, rfl⟩
    have hunique : Relator.RightUnique
        fun param literal => appendParamLiteral param = .ok literal := by
      intro param l l' hl hl'
      exact Except.ok.inj (hl.symm.trans hl')
    have hrendered' : Rendered (params.take (countPlaceholders sql)) literals' :=
      hcontributes.imp fun _ _ hc => hc.rendered
    rw [List.right_unique_forall₂' hunique hrendered' hrendered]
  · rintro rfl
    exact ⟨literals, hcount, hrendered.imp fun _ _ => contributes, rfl⟩

/-- Where nothing is bound or nothing marked, the template is the whole statement. -/
theorem isWhole_self (h : (hasBoundParams params && 0 < countPlaceholders sql) = false) :
    IsWhole params sql sql := by
  unfold IsWhole
  split_ifs with hbound
  · rw [hbound, Bool.true_and, decide_eq_false_iff_not, Nat.not_lt, Nat.le_zero] at h
    refine ⟨[], h.symm, ?_, ?_⟩
    · rw [h]
      exact .nil
    · rw [countPlaceholders_eq] at h
      rw [fill_nil _ h, flatten_segments]
  · rfl

/-- What is substituted holds a NUL byte exactly if one of the parameters it takes does. -/
theorem zero_notMem_iff (hsql : 0 ∉ sql) (hparams : ∀ param ∈ params, param.IsText)
    (h : substituteParams params sql = .ok result) : Intact params sql ↔ 0 ∉ result := by
  obtain ⟨literals, hrendered, hcount, rfl⟩ := substituteParamsFrom_fill sql.length le_rfl h
  have hlen := hrendered.length_eq
  rw [mem_fill hcount, or_iff_right (notMem_segment hsql)]
  rw [← countPlaceholders_eq] at hrendered hcount hlen
  have htext : ∀ {param : BoundParam} {literal : Bytes}, param ∈ params →
      appendParamLiteral param = .ok literal →
        appendCharLiteral param.sqlType param.text = .ok literal := fun hmem hliteral =>
    (appendParamLiteral_text (hparams _ hmem)).symm.trans hliteral
  constructor
  · rintro (hfew | ⟨param, hmem, hnumeric, hno⟩ | hzero)
    · rw [List.length_take, hcount] at hlen
      omega
    · obtain ⟨i, hi, rfl⟩ := List.getElem_of_mem hmem
      have hliteral := htext (List.mem_of_mem_take hmem) (hrendered.get hi (hlen ▸ hi))
      unfold appendCharLiteral at hliteral
      rw [if_pos hnumeric, hno] at hliteral
      cases hliteral
    · rintro ⟨literal, hmem, hc⟩
      obtain ⟨i, hi, rfl⟩ := List.getElem_of_mem hmem
      have hi' : i < (params.take (countPlaceholders sql)).length := hlen ▸ hi
      have hparam := List.getElem_mem hi'
      have hliteral := htext (List.mem_of_mem_take hparam) (hrendered.get hi' hi)
      exact hzero _ hparam ((zero_mem_appendCharLiteral hliteral).1 hc)
  · intro hzero
    refine Or.inr (Or.inr fun param hmem hc => hzero ?_)
    obtain ⟨i, hi, rfl⟩ := List.getElem_of_mem hmem
    have hi' : i < literals.length := hlen ▸ hi
    have hliteral := htext (List.mem_of_mem_take hmem) (hrendered.get hi hi')
    exact ⟨literals[i], List.getElem_mem hi', (zero_mem_appendCharLiteral hliteral).2 hc⟩

/-- A template is refused only for its parameters. -/
theorem intact_of_error (hparams : ∀ param ∈ params, param.IsText) {diag : Diag}
    (h : substituteParams params sql = .error diag) : Intact params sql := by
  by_contra hintact
  simp only [Intact, not_or, Nat.not_lt, not_exists, not_and, Bool.not_eq_false] at hintact
  obtain ⟨hcount, hnumeric, -⟩ := hintact
  have hok : ∀ param ∈ params.take (countPlaceholders sql),
      ∃ literal, appendParamLiteral param = .ok literal := by
    intro param hmem
    rw [appendParamLiteral_text (hparams param (List.mem_of_mem_take hmem)), appendCharLiteral]
    split_ifs with hn ht
    · exact ⟨_, rfl⟩
    · exact absurd (hnumeric param hmem hn) ht
    · exact ⟨_, rfl⟩
  rw [countPlaceholders_eq] at hok hcount
  obtain ⟨result, hresult⟩ := exists_substituteParamsFrom sql.length le_rfl hcount hok
  rw [substituteParams, hresult] at h
  cases h

/-- Where every parameter is bound, a template without substitution has no marker it could fill. -/
theorem intact_of_unsubstituted (hparams : ∀ param ∈ params, param.IsText)
    (h : (hasBoundParams params && 0 < countPlaceholders sql) = false) : Intact params sql := by
  rcases Nat.eq_zero_or_pos (countPlaceholders sql) with hzero | hpos
  · refine Or.inr (Or.inr ?_)
    rw [hzero]
    intro param hmem
    cases hmem
  · rw [decide_eq_true hpos, Bool.and_true] at h
    cases params with
    | nil => exact Or.inl hpos
    | cons param params =>
      rw [hasBoundParams, List.any_cons, (hparams param (List.mem_cons_self ..)).1] at h
      cases h

end

/-! ## Which statements arrive whole -/

theorem sendsWhole_runSql {params : List BoundParam} {sql text : Bytes} {stmt : Stmt} {dbc : Dbc}
    (hcount : stmt.multiStatementCount < 2 ^ 63) :
    SendsWhole params sql (runSql stmt text dbc) ↔ IsWhole params sql (cstr text) := by
  have hdecoded : ∀ p : Post, p.sql = text ∧ p.count = stmt.multiStatementCount →
      p.decodedSql = some (cstr text) := by
    rintro p ⟨rfl, hp⟩
    exact decodedSql_eq (by rw [hp]; exact hcount)
  constructor
  · intro h
    obtain ⟨t, stmt', d, hrun, -, e, he, p, hp, hstmt⟩ := exists_runs_runSql stmt text dbc
    obtain ⟨statement, hwhole, hsent⟩ := (h t _ hrun).2 e he p hp hstmt
    have hsame := hdecoded p ((posts_runSql hrun).1 e he p hp hstmt)
    rw [Option.some.inj (hsame.symm.trans hsent)]
    exact hwhole
  · intro h t a hrun
    obtain ⟨hposts, hnone⟩ := posts_runSql hrun
    exact ⟨hnone, fun e he p hp hstmt => ⟨_, h, hdecoded p (hposts e he p hp hstmt)⟩⟩

theorem executeSql_sendsWhole_iff (stmt : Stmt) {sql : Bytes} (dbc : Dbc) (hsql : 0 ∉ sql)
    (hparams : ∀ param ∈ stmt.params, param.IsText)
    (hcount : stmt.multiStatementCount < 2 ^ 63) :
    SendsWhole stmt.params sql (executeSql stmt sql dbc) ↔ Intact stmt.params sql := by
  unfold executeSql
  cases hsub : hasBoundParams stmt.params && 0 < countPlaceholders sql with
  | false =>
    rw [if_neg (by decide), sendsWhole_runSql hcount, cstr_eq_self hsql]
    exact iff_of_true (isWhole_self hsub) (intact_of_unsubstituted hparams hsub)
  | true =>
    rw [if_pos rfl]
    have hbound := (Bool.and_eq_true_iff.1 hsub).1
    cases hresult : substituteParams stmt.params sql with
    | error diag =>
      refine iff_of_true (fun t a hrun => ?_) (intact_of_error hparams hresult)
      obtain ⟨rfl, rfl⟩ := runs_pure_iff.1 hrun
      exact ⟨fun _ => ⟨diag, rfl⟩, fun e he => by cases he⟩
    | ok result =>
      dsimp only
      rw [sendsWhole_runSql hcount, cstr_eq_self (zero_notMem_cstr result),
        isWhole_iff hbound hresult, zero_notMem_iff hsql hparams hresult]
      exact ⟨fun h => h ▸ zero_notMem_cstr result, cstr_eq_self⟩

/-- A statement with character parameters arrives whole, or fails before it is sent, exactly if it is
refused for them or none that it takes holds a NUL byte. -/
theorem sendsWhole_iff {stmt : Stmt} (text : Bytes) (length : ℤ) (dbc : Dbc)
    (hparams : ∀ param ∈ stmt.params, param.IsText)
    (hcount : stmt.multiStatementCount < 2 ^ 63) :
    (SendsWhole stmt.params (copySql text length) (sqlExecDirect stmt text length dbc) ↔
      Intact stmt.params (copySql text length)) ∧
    (SendsWhole stmt.params (copySql text length) (sqlExecute (sqlPrepare stmt text length) dbc) ↔
      Intact stmt.params (copySql text length)) :=
  have hsql : 0 ∉ copySql text length := zero_notMem_cstr _
  ⟨executeSql_sendsWhole_iff stmt dbc hsql hparams hcount,
    executeSql_sendsWhole_iff (sqlPrepare stmt text length) dbc hsql hparams hcount⟩

/-- A statement handle with one character parameter of three bytes. -/
def threeBytes (memory : String) : Stmt :=
  { freshStmt with params := [⟨true, .varchar, some (.char (lit memory)), some 3⟩] }

theorem threeBytes_isText (memory : String) : ∀ param ∈ (threeBytes memory).params, param.IsText := by
  intro param hmem
  rw [List.mem_singleton.1 hmem]
  exact ⟨rfl, _, _, rfl, rfl, by decide⟩

/-- A value without a NUL byte. -/
theorem sendsWhole_iff_three :
    SendsWhole (threeBytes "a'b").params (copySql (lit "SELECT ?, 1") sqlNts)
      (sqlExecDirect (threeBytes "a'b") (lit "SELECT ?, 1") sqlNts allocDbc) :=
  (sendsWhole_iff (lit "SELECT ?, 1") sqlNts allocDbc (threeBytes_isText "a'b") (by decide)).1.2
    (Or.inr (Or.inr (by decide)))

/-- The value `a`, NUL, `b`: the statement ends inside the string. -/
theorem sendsWhole_cut :
    ¬SendsWhole (threeBytes "a\x00b").params (copySql (lit "SELECT ?, 1") sqlNts)
      (sqlExecDirect (threeBytes "a\x00b") (lit "SELECT ?, 1") sqlNts allocDbc) := by
  have hsql : 0 ∉ copySql (lit "SELECT ?, 1") sqlNts := zero_notMem_cstr _
  have hiff := executeSql_sendsWhole_iff (threeBytes "a\x00b") allocDbc hsql
    (threeBytes_isText "a\x00b") (by decide)
  refine fun h => absurd (hiff.1 h) ?_
  unfold Intact
  decide

end FrostlakeOdbc
