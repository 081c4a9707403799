import FrostlakeOdbc.DeliveryProof
import FrostlakeOdbc.ExecuteProof
import FrostlakeOdbc.HttpProof
import FrostlakeOdbc.WireProof

/-!
# A statement over the sockets

An execution that succeeds put its statement to the engine as the last of its requests, and what the
application reads of it is what the engine framed in its response (`executes_over_sockets`).
-/

namespace FrostlakeOdbc

open CString JsonText Exchange Client HttpText

/-! ## The statement an engine reads -/

theorem zero_notMem_escapeByte (c : UInt8) : 0 ∉ escapeByte c := by
  apply forall_byte (P := fun c => 0 ∉ escapeByte c)
  decide +kernel

theorem zero_notMem_flStrbufAppendJsonString {buf : Bytes} (h : 0 ∉ buf) (text : Bytes) :
    0 ∉ flStrbufAppendJsonString buf text := by
  have hescaped : 0 ∉ (cstr text).flatMap escapeByte := by
    intro h0
    obtain ⟨c, -, hc⟩ := List.mem_flatMap.1 h0
    exact zero_notMem_escapeByte c hc
  have hquote : (0 : UInt8) ∉ [ch '"'] := by decide
  unfold flStrbufAppendJsonString
  simp only [List.mem_append, h, hquote, hescaped, or_self, not_false_eq_true]

/-- No request holds a NUL byte, so it is sent whole. -/
theorem zero_notMem_buildRequestJson (dbc : Dbc) (sql : Bytes) (count : ℤ) :
    0 ∉ buildRequestJson dbc sql count := by
  have happend : ∀ {a b : Bytes}, 0 ∉ a → 0 ∉ b → 0 ∉ a ++ b := fun ha hb h =>
    (List.mem_append.1 h).elim ha hb
  have hcount : 0 ∉ snprintf 48 (lit ",\"multiStatementCount\":" ++ intText count) := fun h =>
    happend (by decide) (zero_notMem_intText count) (List.mem_of_mem_take h)
  have hsql : 0 ∉ flStrbufAppendJsonString (lit "\x7b\"sql\":") sql :=
    zero_notMem_flStrbufAppendJsonString (by decide) sql
  have hid : ∀ id, 0 ∉ flStrbufAppendJsonString
      (flStrbufAppendJsonString (lit "\x7b\"sql\":") sql ++ lit ",\"sessionId\":") id := fun id =>
    zero_notMem_flStrbufAppendJsonString (happend hsql (by decide)) id
  unfold buildRequestJson
  apply happend
  · cases dbc.sessionId with
    | none =>
      dsimp only
      split_ifs
      · exact happend hsql hcount
      · exact hsql
    | some id =>
      dsimp only
      split_ifs
      · exact happend (happend (hid id) (by decide)) hcount
      · exact happend (hid id) hcount
      · exact happend (hid id) (by decide)
      · exact hid id
  · decide

theorem cstr_body (p : Post) : cstr p.body = p.body :=
  cstr_eq_self (zero_notMem_buildRequestJson _ _ _)

theorem flJsonGetString_sql (p : Post) :
    flJsonGetString (flJsonParse p.body) (lit "sql") = some (cstr p.sql) := by
  obtain ⟨count', hparse⟩ := exists_requestMembers p.dbc p.sql p.count
  unfold Post.body flJsonGetString
  rw [hparse]
  show some (cstr (cstr p.sql)) = _
  rw [cstr_eq_self (zero_notMem_cstr p.sql)]

/-- The bytes that were sent are a request to execute the statement `sql`. -/
def PutsStatement (sql : Bytes) (s : SysHistory) : Prop :=
  ∃ request, readRequest (sentIn s) = some (request, []) ∧ request.method = lit "POST" ∧
    request.target = lit "/api/execute" ∧
    flJsonGetString (flJsonParse request.body) (lit "sql") = some sql

theorem putsStatement_of_readRequest {p : Post} {s : SysHistory}
    (h : readRequest (sentIn s) = some ((Request.post p).parts, [])) :
    PutsStatement (cstr p.sql) s := by
  refine ⟨_, h, rfl, rfl, ?_⟩
  show flJsonGetString (flJsonParse (cstr p.body)) (lit "sql") = _
  rw [cstr_body]
  exact flJsonGetString_sql p

/-! ## One request of an execution -/

variable {fuel : ℕ}

/-- The calls `s` are those of a request with the statement `sql`. The engine reads the statement of
it or nothing, if the length of the request fits a `size_t`. -/
def Attempts (fuel : ℕ) (sql : Bytes) (s : SysHistory) : Prop :=
  ∃ p reply, p.sql = sql ∧ Runs ((Request.post p).carryOut fuel) s (some reply) ∧
    (p.body.length < 2 ^ 64 → readRequest (sentIn s) = none ∨ PutsStatement (cstr sql) s)

/-- The calls `s` are those of a request with the statement `sql` that was answered. The engine
reads the statement of it, if the length of what was sent fits a `size_t`. -/
def Succeeds (fuel : ℕ) (sql : Bytes) (s : SysHistory) : Prop :=
  ∃ p status body, p.sql = sql ∧
    Runs ((Request.post p).carryOut fuel) s (some (.answered status body)) ∧
    ((sentIn s).length < 2 ^ 64 → PutsStatement sql s)

theorem attempts_of_executing {dbc : Dbc} (hdbc : dbc.Reachable) {sql : Bytes} {q : Request}
    (hq : Executing dbc sql q) {reply : HttpReply} {s : SysHistory}
    (hrun : Runs (q.carryOut fuel) s (some reply)) (h : CarriesOut q reply s) :
    ∃ tried, (tried = sql ∨ tried ∈ scopeStatements dbc) ∧ Attempts fuel tried s := by
  obtain ⟨p, rfl, hsettings, htried⟩ := hq
  refine ⟨p.sql, htried, p, reply, rfl, hrun, fun hbody => ?_⟩
  have hsendable := sendable_post (hdbc.of_settings hsettings)
  rw [← cstr_body p] at hbody
  rcases readsRequest_of_carriesOut hsendable hbody h with hread | hread
  · exact Or.inr (putsStatement_of_readRequest hread)
  · exact Or.inl hread.1

/-- A request that was answered was sent whole, and the stream that came back is the answer. -/
theorem answered_of_carriesOut {q : Request} {status : ℤ} {body : Bytes} {s : SysHistory}
    (h : CarriesOut q (.answered status body) s) :
    sentIn s = q.text ∧ readResponse (receivedIn s) = .answered status body := by
  obtain ⟨outcome, hexchanged, hreply⟩ := h
  unfold sentIn receivedIn
  generalize trafficIn s = t at hexchanged
  cases hexchanged with
  | unresolved => cases hreply
  | unconnected => cases hreply
  | unsent => cases hreply
  | unread => cases hreply
  | answered received =>
    refine ⟨rfl, ?_⟩
    cases hread : readResponse received with
    | answered status' body' =>
      rw [hread] at hreply
      cases hreply
      rfl
    | failed message =>
      rw [hread] at hreply
      cases hreply
    | fault =>
      rw [hread] at hreply
      cases hreply

theorem length_body_le (p : Post) : (cstr p.body).length ≤ (Request.post p).text.length := by
  show _ ≤ (snprintf _ _ ++ cstr p.body).length
  rw [List.length_append]
  exact Nat.le_add_left _ _

theorem putsStatement_of_answered {p : Post} (hp : p.dbc.Reachable) {status : ℤ} {body : Bytes}
    {s : SysHistory} (h : CarriesOut (.post p) (.answered status body) s)
    (hsize : (sentIn s).length < 2 ^ 64) : PutsStatement (cstr p.sql) s := by
  have hsent := (answered_of_carriesOut h).1
  have hlength := length_body_le p
  rw [← hsent] at hlength
  have hsendable := sendable_post hp
  rcases readsRequest_of_carriesOut hsendable (lt_of_le_of_lt hlength hsize) h with hread | hread
  · exact putsStatement_of_readRequest hread
  · obtain ⟨-, message, hfailed⟩ := hread
    cases hfailed

/-! ## A whole execution -/

theorem exists_of_forall₂_concat {α β : Type} {R : α → β → Prop} {xs : List α} {x : α} {ys : List β}
    (h : List.Forall₂ R (xs ++ [x]) ys) :
    ∃ before y, ys = before ++ [y] ∧ (∀ b ∈ before, ∃ a ∈ xs, R a b) ∧ R x y := by
  induction xs generalizing ys with
  | nil =>
    obtain ⟨y, rest, hy, hrest, rfl⟩ := List.forall₂_cons_left_iff.1 h
    cases hrest
    exact ⟨[], y, rfl, fun _ hb => absurd hb List.not_mem_nil, hy⟩
  | cons a xs ih =>
    obtain ⟨b, rest, hb, hrest, rfl⟩ := List.forall₂_cons_left_iff.1 h
    obtain ⟨before, y, rfl, hbefore, hy⟩ := ih hrest
    refine ⟨b :: before, y, rfl, ?_, hy⟩
    rw [List.forall_mem_cons]
    refine ⟨⟨a, List.mem_cons_self, hb⟩, fun b' hb' => ?_⟩
    obtain ⟨a', ha', hr⟩ := hbefore b' hb'
    exact ⟨a', List.mem_cons_of_mem _ ha', hr⟩

/-- An execution of the statement `sql` that succeeded: the requests `before` attempted its
statement or one of the scope each, and the request `s` was answered. If the response to it holds
result sets, the application reads these, through buffers of any sizes. -/
structure Delivered (fuel : ℕ) (stmt left : Stmt) (sql : Bytes) (dbc : Dbc)
    (before : List SysHistory) (s : SysHistory) : Prop where
  earlier : ∀ b ∈ before, ∃ tried, (tried = sql ∨ tried ∈ scopeStatements dbc) ∧
    Attempts fuel tried b
  last : Succeeds fuel sql s
  reads : ∀ {h : Head} {sets : List SentSet} {root : Value} {body : Bytes}, IsResponse sets root →
    Serialises root body → Framed h body (receivedIn s) → (receivedIn s).length < 2 ^ 63 →
    sets ≠ [] → sets.length < 2 ^ 31 → (∀ set ∈ sets, set.dataTypes.length < 2 ^ 15) →
    (∀ bound ∈ stmt.boundCols, bound.bound = false) → ∀ (beyond : Behind) {sizes : Buffers},
    (∀ i read, 2 ≤ sizes i read) →
    ∃ bound, ∀ fuel, bound ≤ fuel → (readSets beyond sizes fuel fuel left).map Prod.fst =
      some (sets.map fun set => limited stmt.maxRows set.texts)

theorem zero_notMem_delivered {stmt : Stmt} {sql final : Bytes} (h0 : 0 ∉ sql)
    (h : stmt.delivered sql = .ok final) : 0 ∉ final := by
  unfold Stmt.delivered at h
  split at h
  · cases hsubst : substituteParams stmt.params sql with
    | error diag =>
      rw [hsubst] at h
      cases h
    | ok text =>
      rw [hsubst] at h
      cases h
      exact zero_notMem_cstr text
  · cases h
    exact h0

/-- **What the engine answers is what the application reads.** In every run of an execution over its
sockets that succeeds, whatever the kernel makes of the single calls, the last request is the
statement with its parameters put in, every earlier one is that or a statement of the scope, and the
application reads from the results the texts of the sets that the response to the last one holds. -/
theorem executes_over_sockets (fuel : ℕ) {stmt left : Stmt} {sql : Bytes} {dbc dbc' : Dbc}
    {call : Call (Except Diag Unit × Stmt × Dbc)} (hcall : Executes stmt sql dbc call)
    (hdbc : dbc.Reachable) {u : SysHistory}
    (hrun : Runs (overSockets fuel call) u (some (.ok (), left, dbc'))) (hkernel : KernelSound u) :
    ∃ final before s, stmt.delivered sql = .ok final ∧ before.flatten ++ s = u ∧
      Delivered fuel stmt left final dbc before s := by
  obtain ⟨rfl, h0⟩ := hcall.eq_executeSql
  obtain ⟨t, ss, hcarries, rfl, hp⟩ := runs_carriedBy_iff.1 hrun
  obtain ⟨final, p, status, body', root', hfinal, h⟩ := executed_of_run hp
  have hforall := hcarries.forall₂.mp (fun _ _ hr hc => And.intro hr hc)
    (forall_carriesOut hcarries hkernel)
  have hsplit : t.dropLast ++ [(.post p, .answered status body')] = t :=
    List.dropLast_append_getLast? _ h.last
  rw [← hsplit] at hforall
  obtain ⟨before, s, rfl, hbefore, hlast, hout⟩ := exists_of_forall₂_concat hforall
  refine ⟨final, before, s, hfinal, by simp, ?_, ?_, ?_⟩
  · intro b hb
    obtain ⟨e, he, hcall, hcarried⟩ := hbefore b hb
    exact attempts_of_executing hdbc (h.posts e (List.dropLast_subset t he)) hcall hcarried
  · obtain ⟨_, hpost, hsettings, -⟩ := h.posts _ (List.mem_of_getLast? h.last)
    cases hpost
    refine ⟨p, status, body', h.sql, hlast, fun hsize => ?_⟩
    have hput := putsStatement_of_answered (hdbc.of_settings hsettings) hout hsize
    rwa [h.sql, cstr_eq_self (zero_notMem_delivered h0 hfinal)] at hput
  · intro head sets root body hroot hbody hframed hlength hsome hcount hwide hunbound beyond sizes
      hsizes
    -- the whole response was received, so its body is the one that was parsed
    have hprefixes := readResponse_prefix hframed hlength (List.prefix_refl _)
    have hwhole := hprefixes.2 rfl
    rw [(answered_of_carriesOut hout).2] at hwhole
    cases hwhole
    obtain rfl := Option.some.inj ((flJsonParse_serialises hbody).symm.trans h.parses)
    exact readSets_of_holdsAnswer hsome hcount hwide hroot h.holds hunbound beyond hsizes

/-! ## A run of it -/

def SysCall.resolves : SysCall → Bool
  | .getaddrinfo _ _ => true
  | _ => false

/-- A request resolves its host. -/
theorem resolves_carryOut {p : Post} {s : SysHistory} {reply : Option HttpReply}
    (hrun : Runs ((Request.post p).carryOut fuel) s reply) :
    0 < s.countP fun e => e.1.resolves := by
  obtain ⟨outcome, hcalls, -⟩ := runs_map_iff.1 hrun
  obtain ⟨s₁, s₂, opened, rfl, hconnect, -⟩ := runs_bind_iff.1 hcalls
  obtain ⟨s₁, s₃, found, rfl, hfound, -⟩ := runs_bind_iff.1 hconnect
  obtain rfl := runs_call_iff.1 hfound
  simp [SysCall.resolves]

/-- A run that resolves one host is one request. -/
theorem before_eq_nil {stmt left : Stmt} {sql : Bytes} {dbc : Dbc} {before : List SysHistory}
    {s : SysHistory} (h : Delivered fuel stmt left sql dbc before s)
    (hone : (before.flatten ++ s).countP (fun e => e.1.resolves) = 1) : before = [] := by
  obtain ⟨_, _, _, -, hlast, -⟩ := h.last
  have hresolves := resolves_carryOut hlast
  cases before with
  | nil => rfl
  | cons b before =>
    obtain ⟨_, -, _, _, -, hrun, -⟩ := h.earlier b List.mem_cons_self
    have hfirst := resolves_carryOut hrun
    rw [List.flatten_cons, List.countP_append, List.countP_append] at hone
    omega

/-- A result set with one `true`. -/
def booleanBody : Bytes :=
  lit "\x7b\"success\":true,\"resultSets\":[\x7b\"columns\":[\x7b\"dataType\":\"BOOLEAN\"\x7d]," ++
    lit "\"rows\":[[true]]\x7d]\x7d"

theorem serialises_booleanBody : Serialises (booleanAnswer 1) booleanBody := by
  have htype : Spells StringOf 59 (.string (lit "BOOLEAN")) (quoted (lit "BOOLEAN")) :=
    spells_string_iff.2 ⟨_, stringOf_plain "BOOLEAN" (by decide) (by decide), rfl⟩
  have hcolumn := spells_object_single (member_plain "dataType" (by decide) (by decide) htype)
  have htrue : Spells StringOf 59 (.bool true) (lit "true") := spells_bool_iff.2 rfl
  have hrows := spells_array_single (spells_array_single htrue)
  have hrecord := spells_object_pair
    (member_plain "columns" (by decide) (by decide) (spells_array_single hcolumn))
    (member_plain "rows" (by decide) (by decide) hrows)
  have hsuccess : Spells StringOf 63 (.bool true) (lit "true") := spells_bool_iff.2 rfl
  have hanswer := spells_object_pair (member_plain "success" (by decide) (by decide) hsuccess)
    (member_plain "resultSets" (by decide) (by decide) (spells_array_single hrecord))
  exact .self hanswer

/-- A response with that body in one chunk. -/
def booleanResponse : Bytes :=
  chunkedHead.text ++ (lit "54" ++ (crlf ++ (booleanBody ++ (crlf ++ (lit "0" ++ (crlf ++ crlf))))))

theorem framed_booleanResponse : Framed chunkedHead booleanBody booleanResponse := by
  have hvalue : (chunkedHead.fields.head (by decide)).value = lit " " ++ (lit "chunked" ++ []) := by
    decide
  have hsize : Numeral 16 booleanBody.length (lit "54") :=
    ⟨by decide, forall_mem_of_all (by decide), by decide⟩
  have hlast : Numeral 16 0 (lit "0") := ⟨by decide, forall_mem_of_all (by decide), by decide⟩
  have hchunks := Chunks.cons (by decide) hsize (@Chunks.last _ crlf hlast)
  rw [List.append_nil] at hchunks
  exact .chunked rfl hvalue (forall_mem_of_all (by decide)) (by decide)
    (fun _ h => absurd h List.not_mem_nil) hchunks

/-- A kernel that takes the request in three parts and hands over the response in two. -/
def booleanAnswers : List SysAnswer :=
  let rest := booleanResponse.drop 12
  [{ result := 0, addresses := [⟨2, 1, 6, lit "127.0.0.1"⟩] }, { result := 3 }, { result := 0 },
    { result := 0 }, { result := 0 }, { result := 0 }, { result := 100 }, { result := 15 },
    { result := 36 }, { result := 12, data := lit "HTTP/1.1 200" },
    { result := rest.length, data := rest }, { result := 0 }, { result := 0 }]

/-- `SQLExecDirect` of `SELECT 1`. -/
def selectOne : Call (Except Diag Unit × Stmt × Dbc) :=
  sqlExecDirect freshStmt (lit "SELECT 1") sqlNts liveDbc

theorem executes_over_sockets_boolean : ∃ u left dbc',
    Runs (overSockets 20 selectOne) u (some (.ok (), left, dbc')) ∧
    PutsStatement (lit "SELECT 1") u ∧ ∃ bound, ∀ fuel, bound ≤ fuel →
      (readSets (fun _ _ => []) (fun _ _ => 2) fuel fuel left).map Prod.fst =
        some [[[some (lit "1")]]] := by
  have hplay : ((overSockets 20 selectOne).play booleanAnswers).any (fun (u, a) =>
      a.any (fun a => a.1.isOk) && decide (KernelSound u) &&
        decide (receivedIn u = booleanResponse) &&
        decide ((sentIn u).length < 2 ^ 64) && decide ((receivedIn u).length < 2 ^ 63) &&
        decide (u.countP (fun e => e.1.resolves) = 1)) = true := by
    decide +kernel
  obtain ⟨⟨u, a⟩, hplay, hchecked⟩ := Option.any_eq_true _ _ |>.1 hplay
  simp only [Bool.and_eq_true, decide_eq_true_eq] at hchecked
  obtain ⟨⟨⟨⟨⟨hok, hkernel⟩, hreceived⟩, hsize⟩, hlength⟩, hone⟩ := hchecked
  obtain ⟨⟨result, left, dbc'⟩, rfl, hok⟩ := Option.any_eq_true _ _ |>.1 hok
  have hrun := runs_of_play _ _ hplay
  cases result with
  | error diag => cases hok
  | ok _ =>
    have hsql : copySql (lit "SELECT 1") sqlNts = lit "SELECT 1" := by decide
    have hdbc : liveDbc.Reachable := ⟨forall_mem_of_all (by decide), by decide⟩
    obtain ⟨final, before, s, hfinal, rfl, h⟩ :=
      executes_over_sockets 20 (.direct (lit "SELECT 1") sqlNts hsql) hdbc hrun hkernel
    obtain rfl := before_eq_nil h hone
    cases hfinal
    obtain ⟨_, _, _, -, -, hput⟩ := h.last
    refine ⟨s, left, dbc', hrun, hput hsize, ?_⟩
    have hreceived : receivedIn s = booleanResponse := hreceived
    have hframed := framed_booleanResponse
    rw [← hreceived] at hframed
    exact h.reads (isResponse_booleanAnswer 1) serialises_booleanBody hframed hlength (by decide)
      (by decide) (narrow_booleanSet 1) (by simp [freshStmt]) (fun _ _ => []) fun _ _ => le_rfl

end FrostlakeOdbc
