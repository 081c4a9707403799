import FrostlakeOdbc.ConnectRule
import FrostlakeOdbc.SessionHistory

/-!
# The scope is on wherever the application's statements run

Every statement of the application goes to a session in which the scope the connection was opened on
is in force, in every run in which no statement of the scope but a first one is answered by a session
that has just replaced the connection's (`application_runs_in_scope`).
-/

namespace FrostlakeOdbc

open CString JsonText Exchange Client

/-! ## What is in force in a session -/

/-- The last AUTOCOMMIT setting of the driver's own among what ran in a session: on, if none. -/
def lastAutocommit (ran : List Post) : Bool :=
  ran.foldl (fun isOn p =>
    if p.isApplication then isOn
    else if p.sql = autocommitSql true then true
    else if p.sql = autocommitSql false then false
    else isOn) true

/-- A statement of the scope is in force in a session: it ran there, and if it is a setting it is the
last one. -/
def InForce (ran : List Post) (sql : Bytes) : Prop :=
  (∃ q ∈ ran, q.sql = sql) ∧ (sql = autocommitOff → lastAutocommit ran = false)

theorem lastAutocommit_append (ran : List Post) (p : Post) :
    lastAutocommit (ran ++ [p]) =
      if p.isApplication then lastAutocommit ran
      else if p.sql = autocommitSql true then true
      else if p.sql = autocommitSql false then false
      else lastAutocommit ran := by
  rw [lastAutocommit, List.foldl_append]
  rfl

/-- A statement of the driver's that sets AUTOCOMMIT. -/
def IsSetting (sql : Bytes) : Prop := ∃ wanted, sql = autocommitSql wanted

theorem lastAutocommit_other {ran : List Post} {p : Post}
    (h : p.isApplication = true ∨ ¬IsSetting p.sql) :
    lastAutocommit (ran ++ [p]) = lastAutocommit ran := by
  rw [lastAutocommit_append]
  by_cases happ : p.isApplication = true
  · rw [if_pos happ]
  · have hno : ¬IsSetting p.sql := h.resolve_left happ
    rw [if_neg happ, if_neg fun he => hno ⟨true, he⟩, if_neg fun he => hno ⟨false, he⟩]

theorem lastAutocommit_setting {ran : List Post} {p : Post} {wanted : Bool}
    (happ : p.isApplication = false) (h : p.sql = autocommitSql wanted) :
    lastAutocommit (ran ++ [p]) = wanted := by
  rw [lastAutocommit_append, happ, if_neg (by decide), h]
  cases wanted
  · rw [if_neg (by decide), if_pos rfl]
  · rw [if_pos rfl]

theorem InForce.append {ran : List Post} {p : Post} {sql : Bytes} (h : InForce ran sql)
    (hlast : sql = autocommitOff →
      p.isApplication = true ∨ p.sql = autocommitOff ∨ ¬IsSetting p.sql) :
    InForce (ran ++ [p]) sql := by
  obtain ⟨⟨q, hq, hsql⟩, hoff⟩ := h
  refine ⟨⟨q, List.mem_append_left _ hq, hsql⟩, fun heq => ?_⟩
  by_cases happ : p.isApplication = true
  · rw [lastAutocommit_other (Or.inl happ)]
    exact hoff heq
  · rw [Bool.not_eq_true] at happ
    rcases hlast heq with h | h | h
    · rw [happ] at h
      cases h
    · exact lastAutocommit_setting happ (h.trans autocommitSql_false.symm)
    · rw [lastAutocommit_other (Or.inr h)]
      exact hoff heq

/-- The statement that has just run is in force. -/
theorem inForce_last (ran : List Post) {p : Post} (happ : p.isApplication = false) :
    InForce (ran ++ [p]) p.sql := by
  refine ⟨⟨p, List.mem_append_right _ (List.mem_singleton.2 rfl), rfl⟩, fun h => ?_⟩
  exact lastAutocommit_setting happ (h.trans autocommitSql_false.symm)

/-! ## The statements of the scope -/

theorem not_isSetting_of_use {sql : Bytes} (h : lit "USE " <+: sql) : ¬IsSetting sql := by
  rintro ⟨wanted, rfl⟩
  cases wanted
  · exact absurd h (by decide)
  · exact absurd h (by decide)

theorem not_isSetting_useDatabase (name : Bytes) : ¬IsSetting (useDatabase name) :=
  not_isSetting_of_use (prefix_useDatabase name)

theorem not_isSetting_useSchema (name : Bytes) : ¬IsSetting (useSchema name) :=
  not_isSetting_of_use (prefix_useSchema name)

/-- The statements that put names in force. -/
def nameStatements (database schema : Option Bytes) : List Bytes :=
  (if hasName database then [useDatabase (database.getD [])] else []) ++
    (if hasName schema then [useSchema (schema.getD [])] else [])

theorem not_isSetting_of_mem {database schema : Option Bytes} {sql : Bytes}
    (h : sql ∈ nameStatements database schema) : ¬IsSetting sql := by
  rcases List.mem_append.1 h with h | h
  · split at h
    · rw [List.mem_singleton.1 h]
      exact not_isSetting_useDatabase _
    · simp at h
  · split at h
    · rw [List.mem_singleton.1 h]
      exact not_isSetting_useSchema _
    · simp at h

/-- The connection was opened on these names. -/
def OpenedOn (database schema : Option Bytes) (dbc : Dbc) : Prop :=
  dbc.scopeDatabase = (if hasName database then database else none) ∧
    dbc.scopeSchema = (if hasName schema then schema else none)

theorem scopeStatements_eq {database schema : Option Bytes} {dbc : Dbc}
    (h : OpenedOn database schema dbc) :
    scopeStatements dbc =
      nameStatements database schema ++ (if dbc.autocommit then [] else [autocommitOff]) := by
  have hnone : hasName none = false := by decide
  unfold scopeStatements nameStatements
  rw [h.1, h.2]
  cases hd : hasName database <;> cases hs : hasName schema <;> cases dbc.autocommit <;>
    simp [hnone, hd, hs]

/-! ## The answers -/

/-- An answer tells the session the statement ran in: a success names its session, and a session that
was not just started is the one the request named. -/
def Honest (p : Post) (reply : HttpReply) : Prop :=
  ∀ root ∈ answerTo p reply,
    (success root = true → namedSession root ≠ none) ∧
      ∀ x ∈ namedSession root, newSession root = some true ∨ p.dbc.sessionId = some x

instance (p : Post) (reply : HttpReply) : Decidable (Honest p reply) :=
  inferInstanceAs (Decidable (∀ root ∈ answerTo p reply,
    (success root = true → namedSession root ≠ none) ∧
      ∀ x ∈ namedSession root, newSession root = some true ∨ p.dbc.sessionId = some x))

/-- A statement of the scope that comes after others of it. -/
def Post.continuesScope (p : Post) : Bool :=
  match p.origin with
  | .scope i => 0 < i
  | .statement _ => false

/-- Where a statement of the scope but a first one is answered with success, its session was not
started in place of the one that was sent. -/
def ReplacedAtFirst (p : Post) (reply : HttpReply) : Prop :=
  p.continuesScope = true → ∀ root ∈ answerTo p reply, success root = true →
    replaces p.dbc.sessionId.isSome root = false

instance (p : Post) (reply : HttpReply) : Decidable (ReplacedAtFirst p reply) :=
  inferInstanceAs (Decidable (p.continuesScope = true → ∀ root ∈ answerTo p reply,
    success root = true → replaces p.dbc.sessionId.isSome root = false))

section

variable {t : Trace} {p : Post} {reply : HttpReply} {root : Value}

theorem starts_eq_false {x : Bytes} (hnew : newSession root ≠ some true)
    (hx : namedSession root = some x) (hsame : p.dbc.sessionId = some x) : starts p root = false := by
  rw [starts, decide_eq_false hnew, hx, hsame]
  simp

/-- A session that starts is one that replaced another, or the first of the connection. -/
theorem replaces_or_first {x : Bytes} (hnew : newSession root = some true)
    (hx : namedSession root = some x) :
    replaces p.dbc.sessionId.isSome root = true ∨ p.dbc.sessionId = none := by
  cases hs : p.dbc.sessionId with
  | none => exact Or.inr rfl
  | some y =>
    left
    rw [replaces, hx, hnew]
    rfl

/-- The session after a success: the statement ran in the one that was sent, or alone in a new one. -/
theorem absorbed_success (hans : answerTo p reply = some root) (hs : success root = true)
    (hhonest : Honest p reply) :
    ∃ x ran, (p.absorbed root).sessionId = some x ∧
      inSession x (t ++ [(.post p, reply)]) = ran ++ [p] ∧
      ((p.dbc.sessionId = some x ∧ ran = inSession x t) ∨
        (ran = [] ∧ (replaces p.dbc.sessionId.isSome root = true ∨ p.dbc.sessionId = none))) := by
  obtain ⟨hnamed, hsame⟩ := hhonest root hans
  obtain ⟨x, hx⟩ := Option.ne_none_iff_exists'.1 (hnamed hs)
  have hrun := inSession_of_named (t := t) hans hx
  rw [hs, if_pos rfl] at hrun
  refine ⟨x, _, ?_, hrun, ?_⟩
  · rw [Post.absorbed, sessionId_absorbSession, hx, Option.some_or]
  by_cases hnew : newSession root = some true
  · right
    rw [starts, decide_eq_true hnew, Bool.true_or, if_pos rfl]
    exact ⟨rfl, replaces_or_first hnew hx⟩
  · left
    have hsent := (hsame x hx).resolve_left hnew
    rw [starts_eq_false hnew hx hsent, if_neg (by decide)]
    exact ⟨hsent, rfl⟩

/-- The session after a refusal: it holds what it held, or it is new and nothing ran in it. -/
theorem absorbed_refused (hans : answerTo p reply = some root) (hs : success root = false)
    (hhonest : Honest p reply) {x : Bytes} (hx : (p.absorbed root).sessionId = some x) :
    (p.dbc.sessionId = some x ∧ inSession x (t ++ [(.post p, reply)]) = inSession x t) ∨
      (inSession x (t ++ [(.post p, reply)]) = [] ∧
        (replaces p.dbc.sessionId.isSome root = true ∨ p.dbc.sessionId = none)) := by
  rw [Post.absorbed, sessionId_absorbSession] at hx
  cases hn : namedSession root with
  | none =>
    rw [hn, Option.none_or] at hx
    exact Or.inl ⟨hx, inSession_of_other hans (by simp [hn])⟩
  | some y =>
    rw [hn, Option.some_or] at hx
    cases hx
    have hrun := inSession_of_named (t := t) hans hn
    simp only [hs, Bool.false_eq_true, if_false, List.append_nil] at hrun
    by_cases hnew : newSession root = some true
    · right
      rw [starts, decide_eq_true hnew, Bool.true_or, if_pos rfl] at hrun
      exact ⟨hrun, replaces_or_first hnew hn⟩
    · left
      have hsent := ((hhonest root hans).2 x hn).resolve_left hnew
      rw [starts_eq_false hnew hn hsent, if_neg (by decide)] at hrun
      exact ⟨hsent, hrun⟩

end

/-! ## What a connection can rely on -/

/-- The statements `need` are in force on the connection's session, and the session of a connection in
autocommit mode is in autocommit mode. -/
structure Covered (need : List Bytes) (dbc : Dbc) (t : Trace) : Prop where
  inForce : ∀ s ∈ need, ∃ x, dbc.sessionId = some x ∧ InForce (inSession x t) s
  autocommit : ∀ x, dbc.sessionId = some x → dbc.autocommit = true →
    lastAutocommit (inSession x t) = true

/-- A statement was the last to run in the connection's session; before it `need` was in force. -/
structure RanLast (need : List Bytes) (p : Post) (dbc : Dbc) (x : Bytes) (ran : List Post)
    (t : Trace) : Prop where
  session : dbc.sessionId = some x
  history : inSession x t = ran ++ [p]
  inForce : ∀ s ∈ need, InForce ran s
  autocommit : dbc.autocommit = true → lastAutocommit ran = true

/-- What has to be in force already: nothing, where the scope is still to go on. -/
def unlessPending (need : List Bytes) (dbc : Dbc) : List Bytes := if dbc.scopePending then [] else need

theorem mem_of_mem_unlessPending {need : List Bytes} {dbc : Dbc} {s : Bytes}
    (h : s ∈ unlessPending need dbc) : s ∈ need := by
  unfold unlessPending at h
  split at h
  · simp at h
  · exact h

theorem unlessPending_mono {need need' : List Bytes} {dbc : Dbc} (hsub : ∀ s ∈ need', s ∈ need)
    {s : Bytes}
    (h : s ∈ unlessPending need' dbc) : s ∈ unlessPending need dbc := by
  unfold unlessPending at h ⊢
  split at h
  · simp at h
  · next hp =>
    rw [if_neg hp]
    exact hsub s h

theorem unlessPending_of_not_pending {need : List Bytes} {dbc : Dbc} (h : dbc.scopePending = false) :
    unlessPending need dbc = need := by
  rw [unlessPending, h]
  exact if_neg (by decide)

section

variable {need : List Bytes} {t : Trace} {p : Post} {reply : HttpReply} {root : Value} {dbc : Dbc}

theorem Covered.mono {need' : List Bytes} (h : Covered need dbc t) (hsub : ∀ s ∈ need', s ∈ need) :
    Covered need' dbc t :=
  ⟨fun s hs => h.inForce s (hsub s hs), h.autocommit⟩

theorem RanLast.mono {need' : List Bytes} {x : Bytes} {ran : List Post}
    (h : RanLast need p dbc x ran t) (hsub : ∀ s ∈ need', s ∈ need) : RanLast need' p dbc x ran t :=
  ⟨h.session, h.history, fun s hs => h.inForce s (hsub s hs), h.autocommit⟩

theorem covered_of_no_session (h : dbc.sessionId = none) : Covered [] dbc t := by
  refine ⟨fun s hs => ?_, fun x hx => ?_⟩
  · simp at hs
  · rw [h] at hx
    cases hx

theorem Covered.unanswered (h : Covered need p.dbc t) (hans : answerTo p reply = none) :
    Covered need p.dbc (t ++ [(.post p, reply)]) := by
  refine ⟨fun s hs => ?_, fun x hx hauto => ?_⟩
  · obtain ⟨x, hx, hforce⟩ := h.inForce s hs
    exact ⟨x, hx, by rwa [inSession_of_none hans]⟩
  · rw [inSession_of_none hans]
    exact h.autocommit x hx hauto

theorem autocommit_absorbed (p : Post) (root : Value) :
    (p.absorbed root).autocommit = p.dbc.autocommit := autocommit_of_settings (settings_absorbed p root)

/-- What was in force is in force before the statement that has just been answered, if the session
was there and was kept. -/
theorem Covered.before (h : Covered need p.dbc t)
    (hkept : need = [] ∨ replaces p.dbc.sessionId.isSome root = false) {x : Bytes} {ran : List Post}
    (hcases : (p.dbc.sessionId = some x ∧ ran = inSession x t) ∨
      (ran = [] ∧ (replaces p.dbc.sessionId.isSome root = true ∨ p.dbc.sessionId = none))) :
    (∀ s ∈ need, InForce ran s) ∧
      ((p.absorbed root).autocommit = true → lastAutocommit ran = true) := by
  rcases hcases with ⟨hsame, rfl⟩ | ⟨rfl, hnew⟩
  · refine ⟨fun s hs => ?_, fun hauto => ?_⟩
    · obtain ⟨y, hy, hforce⟩ := h.inForce s hs
      rw [hsame] at hy
      cases hy
      exact hforce
    · rw [autocommit_absorbed] at hauto
      exact h.autocommit x hsame hauto
  · refine ⟨fun s hs => ?_, fun _ => rfl⟩
    obtain ⟨y, hy, -⟩ := h.inForce s hs
    rcases hkept with rfl | hkept
    · simp at hs
    · rw [hkept, hy] at hnew
      simp at hnew

theorem Covered.refused (h : Covered need p.dbc t)
    (hkept : need = [] ∨ replaces p.dbc.sessionId.isSome root = false)
    (hans : answerTo p reply = some root) (hs : success root = false) (hhonest : Honest p reply) :
    Covered need (p.absorbed root) (t ++ [(.post p, reply)]) := by
  have hall : ∀ x, (p.absorbed root).sessionId = some x →
      (∀ s ∈ need, InForce (inSession x (t ++ [(.post p, reply)])) s) ∧
      ((p.absorbed root).autocommit = true →
        lastAutocommit (inSession x (t ++ [(.post p, reply)])) = true) := fun x hx =>
    h.before hkept (absorbed_refused hans hs hhonest hx)
  refine ⟨fun s hmem => ?_, fun x hx => (hall x hx).2⟩
  obtain ⟨y, hy⟩ : ∃ y, (p.absorbed root).sessionId = some y := by
    obtain ⟨x, hx, -⟩ := h.inForce s hmem
    rw [Post.absorbed, sessionId_absorbSession, hx]
    cases namedSession root with
    | none => exact ⟨x, rfl⟩
    | some y => exact ⟨y, rfl⟩
  exact ⟨y, hy, (hall y hy).1 s hmem⟩

theorem Covered.ranLast (h : Covered need p.dbc t)
    (hkept : need = [] ∨ replaces p.dbc.sessionId.isSome root = false)
    (hans : answerTo p reply = some root) (hs : success root = true) (hhonest : Honest p reply) :
    ∃ x ran, RanLast need p (p.absorbed root) x ran (t ++ [(.post p, reply)]) := by
  obtain ⟨x, ran, hx, hrun, hcases⟩ := absorbed_success (t := t) hans hs hhonest
  obtain ⟨hforce, hauto⟩ := h.before hkept hcases
  exact ⟨x, ran, hx, hrun, hforce, hauto⟩

variable {x : Bytes} {ran : List Post}

/-- A statement that is no setting of the driver's leaves what was in force. -/
theorem RanLast.covered (h : RanLast need p dbc x ran t)
    (hp : p.isApplication = true ∨ ¬IsSetting p.sql) : Covered need dbc t := by
  refine ⟨fun s hs => ⟨x, h.session, ?_⟩, fun y hy hauto => ?_⟩
  · rw [h.history]
    exact (h.inForce s hs).append fun _ => hp.elim Or.inl fun hno => Or.inr (Or.inr hno)
  · rw [h.session] at hy
    cases hy
    rw [h.history, lastAutocommit_other hp]
    exact h.autocommit hauto

/-- A statement of the driver's is in force once it has run, whatever the connection's commit mode is
to be then. -/
theorem RanLast.covered_snoc (h : RanLast need p dbc x ran t) (happ : p.isApplication = false)
    (hoff : autocommitOff ∈ need → p.sql = autocommitOff ∨ ¬IsSetting p.sql) (isOn : Bool)
    (hauto : isOn = true → lastAutocommit (ran ++ [p]) = true) :
    Covered (need ++ [p.sql]) { dbc with autocommit := isOn } t := by
  refine ⟨fun s hs => ⟨x, h.session, ?_⟩, fun y hy hon => ?_⟩
  · rw [h.history]
    rcases List.mem_append.1 hs with hs | hs
    · refine (h.inForce s hs).append fun heq => Or.inr ?_
      exact hoff (heq ▸ hs)
    · rw [List.mem_singleton.1 hs]
      exact inForce_last ran happ
  · have hxy : some x = some y := h.session.symm.trans hy
    cases hxy
    rw [h.history]
    exact hauto hon

end

/-! ## Every run -/

/-- The scope a connection was opened on is on the session a request names, and its commit mode is
the connection's. -/
def InScope (database schema : Option Bytes) (t : Trace) (p : Post) : Prop :=
  hasName database = true ∨ hasName schema = true ∨ p.dbc.autocommit = false →
    ∃ x, p.dbc.sessionId = some x ∧
      (hasName database = true → ∃ q ∈ inSession x t, q.sql = useDatabase (database.getD [])) ∧
      (hasName schema = true → ∃ q ∈ inSession x t, q.sql = useSchema (schema.getD [])) ∧
      lastAutocommit (inSession x t) = p.dbc.autocommit

def sendsInScope (database schema : Option Bytes) (t : Trace) : Request → Prop
  | .post p => p.isApplication = true → InScope database schema t p
  | _ => True

def keepsSession (_ : Trace) : Request → HttpReply → Prop
  | .post p, reply => Honest p reply ∧ ReplacedAtFirst p reply
  | _, _ => True

def scopeMonitor (database schema : Option Bytes) : Monitor Request HttpReply Trace :=
  Monitor.ofHistory (sendsInScope database schema) keepsSession

section

variable {database schema : Option Bytes}

theorem OpenedOn.congr {a b : Dbc} (h : OpenedOn database schema a) (hset : b.settings = a.settings) :
    OpenedOn database schema b := by
  show OpenedOn database schema b.settings
  rw [hset]
  exact h

theorem inScope_of_covered {p : Post} {t : Trace} (hopen : OpenedOn database schema p.dbc)
    (h : Covered (scopeStatements p.dbc) p.dbc t) : InScope database schema t p := by
  rw [scopeStatements_eq hopen] at h
  have hdatabase : hasName database = true → useDatabase (database.getD []) ∈
      nameStatements database schema ++ (if p.dbc.autocommit then [] else [autocommitOff]) := by
    intro hd
    simp [nameStatements, hd]
  have hschema : hasName schema = true → useSchema (schema.getD []) ∈
      nameStatements database schema ++ (if p.dbc.autocommit then [] else [autocommitOff]) := by
    intro hs
    simp [nameStatements, hs]
  have hmode : p.dbc.autocommit = false → autocommitOff ∈
      nameStatements database schema ++ (if p.dbc.autocommit then [] else [autocommitOff]) := by
    intro ha
    simp [ha]
  intro hsome
  obtain ⟨x, hx⟩ : ∃ x, p.dbc.sessionId = some x := by
    rcases hsome with hd | hs | ha
    · exact (h.inForce _ (hdatabase hd)).imp fun _ hx => hx.1
    · exact (h.inForce _ (hschema hs)).imp fun _ hx => hx.1
    · exact (h.inForce _ (hmode ha)).imp fun _ hx => hx.1
  have hforce : ∀ s ∈ nameStatements database schema ++
      (if p.dbc.autocommit then [] else [autocommitOff]), InForce (inSession x t) s := by
    intro s hs
    obtain ⟨y, hy, hforce⟩ := h.inForce s hs
    rw [hx] at hy
    cases hy
    exact hforce
  refine ⟨x, hx, fun hd => (hforce _ (hdatabase hd)).1, fun hs => (hforce _ (hschema hs)).1, ?_⟩
  cases ha : p.dbc.autocommit
  · exact (hforce _ (hmode ha)).2 rfl
  · exact h.autocommit x hx ha

/-- What holds after an execution that could rely on `need`. -/
structure Executed (need : List Bytes) (dbc : Dbc) (sql : Bytes) (flags : ExecFlags)
    (a : Result × Dbc) (t : Trace) : Prop where
  settings : a.2.settings = dbc.settings
  failed : Result.isSuccess a.1 = false → Covered (unlessPending need a.2) a.2 t
  succeeded : Result.isSuccess a.1 = true → ∃ p x ran,
    RanLast (unlessPending need a.2) p a.2 x ran t ∧ p.sql = sql ∧ p.isApplication = flags.tracked

/-- The statements up to the `i`-th of the scope are in force once it has been answered. -/
theorem covered_take {dbc d : Dbc} (hopen : OpenedOn database schema dbc)
    (hset : d.settings = dbc.settings) {i : ℕ} {p : Post}
    (hat : (scopeStatements dbc)[i]? = some p.sql) (happ : p.isApplication = false) {x : Bytes}
    {ran : List Post} {t : Trace} (h : RanLast ((scopeStatements dbc).take i) p d x ran t) :
    Covered ((scopeStatements dbc).take (i + 1)) d t := by
  have hmode := autocommit_of_settings hset
  have hmem : p.sql ∈ scopeStatements dbc := List.mem_of_getElem? hat
  rw [scopeStatements_eq hopen] at hmem
  have htake : (scopeStatements dbc).take (i + 1) = (scopeStatements dbc).take i ++ [p.sql] := by
    rw [List.take_add_one, hat]
    rfl
  rw [htake]
  refine h.covered_snoc happ (fun _ => ?_) d.autocommit fun hon => ?_
  · rcases List.mem_append.1 hmem with hname | hoff
    · exact Or.inr (not_isSetting_of_mem hname)
    · split at hoff
      · simp at hoff
      · exact Or.inl (List.mem_singleton.1 hoff)
  · rw [← hmode, hon, if_pos rfl, List.append_nil] at hmem
    rw [lastAutocommit_other (Or.inr (not_isSetting_of_mem hmem))]
    exact h.autocommit hon

/-- What holds after the answer to a statement that was sent where `need` was in force. -/
theorem executed_answered {need : List Bytes} {dbc d : Dbc} {sql : Bytes} {count : ℤ}
    {flags : ExecFlags} {t : Trace} {reply : HttpReply} {root : Value}
    (hset : d.settings = dbc.settings) (hp : d.scopePending = false) (h : Covered need d t)
    (hans : answerTo ⟨.statement flags, d, sql, count⟩ reply = some root)
    (hhonest : Honest ⟨.statement flags, d, sql, count⟩ reply) :
    Executed need dbc sql flags
      (.ok (decodeResponse root), Post.absorbed ⟨.statement flags, d, sql, count⟩ root)
      (t ++ [(.post ⟨.statement flags, d, sql, count⟩, reply)]) := by
  let p : Post := ⟨.statement flags, d, sql, count⟩
  have hkept : unlessPending need (p.absorbed root) = [] ∨
      replaces d.sessionId.isSome root = false := by
    have hpend := scopePending_absorbSession d root d.sessionId.isSome
    rw [hp, Bool.false_or] at hpend
    cases hr : replaces d.sessionId.isSome root
    · exact Or.inr rfl
    · exact Or.inl (by rw [unlessPending, Post.absorbed, hpend, hr, if_pos rfl])
  have hcov : Covered (unlessPending need (p.absorbed root)) d t :=
    h.mono fun s hs => mem_of_mem_unlessPending hs
  refine ⟨(settings_absorbed _ root).trans hset, fun hs => ?_, fun hs => ?_⟩
  · rw [isSuccess_decodeResponse] at hs
    exact Covered.refused (p := p) hcov hkept hans hs hhonest
  · rw [isSuccess_decodeResponse] at hs
    obtain ⟨x, ran, hran⟩ := Covered.ranLast (p := p) hcov hkept hans hs hhonest
    exact ⟨p, x, ran, hran, rfl, rfl⟩

theorem Executed.noted {need : List Bytes} {dbc d : Dbc} {sql : Bytes} {flags : ExecFlags}
    {result : Result} {t : Trace} (h : Executed need dbc sql flags (result, d) t) (noted : Bytes) :
    Executed need dbc sql flags (result, flSessionNote d noted) t := by
  obtain ⟨dirty, isOpen, heq⟩ := flSessionNote_eq d noted
  rw [heq]
  refine ⟨h.settings, fun hs => ?_, fun hs => ?_⟩
  · have hcov := h.failed hs
    exact ⟨hcov.inForce, hcov.autocommit⟩
  · obtain ⟨p, x, ran, hran, hsql, happ⟩ := h.succeeded hs
    exact ⟨p, x, ran, ⟨hran.session, hran.history, hran.inForce, hran.autocommit⟩, hsql, happ⟩

section

variable {need : List Bytes} {dbc d : Dbc} {sql : Bytes} {count : ℤ} {flags : ExecFlags} {t : Trace}

/-- The first `i` statements of the scope are in force. -/
def PassedScope (dbc : Dbc) (i : ℕ) (d : Dbc) (t : Trace) : Prop :=
  d.settings = dbc.settings ∧ d.scopePending = true ∧ Covered ((scopeStatements dbc).take i) d t

/-- `need` is in force where the statement is sent. -/
def ReadyWith (dbc : Dbc) (need : List Bytes) (d : Dbc) (t : Trace) : Prop :=
  d.settings = dbc.settings ∧ d.scopePending = false ∧ Covered need d t

/-- An error leaves what was in force. -/
theorem executed_error (e : TransportError) (hset : d.settings = dbc.settings)
    (hcov : Covered (unlessPending need d) d t) : Executed need dbc sql flags (.error e, d) t :=
  ⟨hset, fun _ => hcov, fun hs => by cases hs⟩

/-- Where the session is lost, nothing has to be in force. -/
theorem afterLoss_executed (t : Trace) (hset : d.settings = dbc.settings) :
    AfterLoss (PassedScope dbc) (Executed need dbc sql flags) d t := by
  have hforget : Covered [] (forgetSession d) t := covered_of_no_session rfl
  have hset' := (settings_forgetSession d).trans hset
  exact ⟨fun e _ => executed_error e hset' hforget, fun _ _ => ⟨hset', rfl, hforget⟩⟩

theorem Covered.pending {covered : List Bytes} (h : Covered covered d t) (hp : d.scopePending = true) :
    Covered (unlessPending need d) d t := by
  rw [unlessPending, hp]
  exact h.mono (by simp)

theorem scopeKeeps_executed (hopen : OpenedOn database schema dbc) :
    ScopeKeeps (scopeMonitor database schema) (PassedScope dbc) (Executed need dbc sql flags)
      (scopeStatements dbc) := by
  intro i stmt d t hat hpass
  obtain ⟨hset, hp, hcov⟩ := hpass
  refine ⟨fun happ => ?_, fun reply hreply => ?_⟩
  · cases happ
  obtain ⟨hhonest, hfirst⟩ := hreply
  have hpend : ∀ root, (Post.absorbed ⟨.scope i, d, stmt, -1⟩ root).scopePending = true := by
    intro root
    rw [Post.absorbed, scopePending_absorbSession, hp, Bool.true_or]
  refine afterScope_readReply (p := ⟨.scope i, d, stmt, -1⟩) ?_ ?_ ?_
  · intro hnone
    exact ⟨afterLoss_executed _ hset, fun e _ => executed_error e hset ((hcov.unanswered hnone).pending hp)⟩
  · intro root hans hs
    have hkept : (scopeStatements dbc).take i = [] ∨ replaces d.sessionId.isSome root = false := by
      rcases Nat.eq_zero_or_pos i with rfl | hi
      · exact Or.inl rfl
      · exact Or.inr (hfirst (decide_eq_true hi) root hans hs)
    obtain ⟨x, ran, hran⟩ := hcov.ranLast hkept hans hs hhonest
    have hset' := (settings_absorbed ⟨.scope i, d, stmt, -1⟩ root).trans hset
    exact ⟨hset', hpend root, covered_take hopen hset' hat rfl hran⟩
  · intro root hans hs message
    have hnone : Covered [] d t := hcov.mono (by simp)
    have hcov' := hnone.refused (Or.inl rfl) hans hs hhonest
    refine ⟨(settings_absorbed _ root).trans hset, fun _ => hcov'.pending (hpend root), ?_⟩
    intro hok
    rw [isSuccess_scopeFailed] at hok
    cases hok

theorem statementKeeps_executed (hopen : OpenedOn database schema dbc)
    (htracked : flags.tracked = true → need = scopeStatements dbc) :
    StatementKeeps (scopeMonitor database schema) (PassedScope dbc) (ReadyWith dbc need)
      (Executed need dbc sql flags) sql count flags := by
  intro d t hready
  obtain ⟨hset, hp, hcov⟩ := hready
  refine ⟨fun happ => ?_, fun reply hreply => ?_⟩
  · rw [htracked happ, ← scopeStatements_congr hset] at hcov
    exact inScope_of_covered (hopen.congr hset) hcov
  have hhonest := hreply.1
  refine afterStatement_readReply (p := ⟨.statement flags, d, sql, count⟩) ?_ ?_
  · intro hnone
    refine ⟨afterLoss_executed _ hset, fun e _ => executed_error e hset ?_⟩
    rw [unlessPending_of_not_pending hp]
    exact hcov.unanswered hnone
  · intro root hans
    have hexec : Executed need dbc sql flags
        (.ok (decodeResponse root), Post.absorbed ⟨.statement flags, d, sql, count⟩ root)
        (t ++ [(.post ⟨.statement flags, d, sql, count⟩, reply)]) :=
      executed_answered hset hp hcov hans hhonest
    split
    · exact hexec.noted sql
    · exact hexec

end

theorem holds_executed (dbc : Dbc) (t : Trace) {need : List Bytes} {sql : Bytes} {count : ℤ}
    {flags : ExecFlags} (hopen : OpenedOn database schema dbc)
    (hneed : ∀ s ∈ need, s ∈ scopeStatements dbc)
    (htracked : flags.tracked = true → need = scopeStatements dbc)
    (h : Covered (unlessPending need dbc) dbc t) :
    (scopeMonitor database schema).Holds (flProtoExecuteAs dbc sql count flags)
      (Executed need dbc sql flags) t := by
  have hpass : ∀ d t, PassedScope dbc (scopeStatements dbc).length d t →
      ReadyWith dbc need { d with scopePending := false } t := by
    intro d t hd
    obtain ⟨hset, -, hcov⟩ := hd
    rw [List.take_length] at hcov
    exact ⟨hset, rfl, (hcov.mono hneed).inForce, hcov.autocommit⟩
  refine holds_flProtoExecuteAs (scopeKeeps_executed hopen) hpass
    (statementKeeps_executed hopen htracked) (fun d t hd => hd.1) ?_ ?_
  · intro hp
    exact ⟨rfl, hp, h.mono (by simp)⟩
  · intro hp
    rw [unlessPending_of_not_pending hp] at h
    exact ⟨rfl, hp, h⟩

/-! ## Calls and connects -/

/-- A statement of the driver's own that was answered with success is in force. -/
theorem Executed.ran {need : List Bytes} {dbc : Dbc} {sql : Bytes} {flags : ExecFlags}
    {a : Result × Dbc} {t : Trace} (h : Executed need dbc sql flags a t)
    (hs : Result.isSuccess a.1 = true) (hflags : flags.tracked = false)
    (hoff : autocommitOff ∈ need → sql = autocommitOff ∨ ¬IsSetting sql) (isOn : Bool)
    (hon : isOn = true → sql = autocommitSql true ∨ (¬IsSetting sql ∧ dbc.autocommit = true)) :
    Covered (unlessPending (need ++ [sql]) a.2) { a.2 with autocommit := isOn } t := by
  obtain ⟨p, x, ran, hran, rfl, happ⟩ := h.succeeded hs
  rw [hflags] at happ
  have hcov : Covered (unlessPending need a.2 ++ [p.sql]) { a.2 with autocommit := isOn } t := by
    refine hran.covered_snoc happ (fun hmem => hoff (mem_of_mem_unlessPending hmem)) isOn
      fun hisOn => ?_
    rcases hon hisOn with htrue | ⟨hno, hauto⟩
    · exact lastAutocommit_setting happ htrue
    · rw [lastAutocommit_other (Or.inr hno)]
      exact hran.autocommit ((autocommit_of_settings h.settings).trans hauto)
  refine hcov.mono fun s hmem => ?_
  unfold unlessPending at hmem ⊢
  split at hmem
  · simp at hmem
  · next hp => rwa [if_neg hp]

theorem Executed.mono {need need' : List Bytes} {dbc : Dbc} {sql : Bytes} {flags : ExecFlags}
    {a : Result × Dbc} {t : Trace} (h : Executed need dbc sql flags a t)
    (hsub : ∀ s ∈ need', s ∈ need) : Executed need' dbc sql flags a t := by
  refine ⟨h.settings, fun hs => (h.failed hs).mono fun s => unlessPending_mono hsub, fun hs => ?_⟩
  obtain ⟨p, x, ran, hran, hp⟩ := h.succeeded hs
  exact ⟨p, x, ran, hran.mono fun s => unlessPending_mono hsub, hp⟩

/-- An open connection was opened on the names, and its scope is in force unless it is to go on. -/
def Scoped (database schema : Option Bytes) (dbc : Dbc) (t : Trace) : Prop :=
  dbc.connected = true →
    OpenedOn database schema dbc ∧ Covered (unlessPending (scopeStatements dbc) dbc) dbc t

theorem Executed.scoped {dbc : Dbc} {sql : Bytes} {recover : Bool} {a : Result × Dbc} {t : Trace}
    (hopen : OpenedOn database schema dbc)
    (h : Executed (scopeStatements dbc) dbc sql ⟨true, recover⟩ a t) :
    Scoped database schema a.2 t := by
  intro _
  refine ⟨hopen.congr h.settings, ?_⟩
  rw [scopeStatements_congr h.settings]
  cases hs : Result.isSuccess a.1
  · exact h.failed hs
  · obtain ⟨p, x, ran, hran, -, happ⟩ := h.succeeded hs
    exact hran.covered (Or.inl happ)

theorem autocommitOff_notMem_names : autocommitOff ∉ nameStatements database schema := fun h =>
  not_isSetting_of_mem h ⟨false, autocommitSql_false.symm⟩

/-- The mirror of `SQL_ATTR_AUTOCOMMIT` keeps the scope on. -/
theorem holds_setAutocommit {dbc : Dbc} {t : Trace} (wanted : Bool)
    (h : Scoped database schema dbc t) :
    (scopeMonitor database schema).Holds (setAutocommit wanted dbc)
      (fun a t => Scoped database schema a.2 t) t := by
  unfold setAutocommit
  by_cases hsend : (dbc.connected && wanted ≠ dbc.autocommit) = true
  · rw [if_pos hsend]
    simp only [Bool.and_eq_true, decide_eq_true_eq] at hsend
    obtain ⟨hopen, hcov⟩ := h hsend.1
    refine (holds_executed dbc t hopen (fun s hs => hs) (fun ht => by cases ht) hcov).bind ?_
    rintro ⟨result, d⟩ t' hd
    have hset : d.settings = dbc.settings := hd.settings
    dsimp only
    split
    · next diag hr =>
      refine Monitor.holds_pure fun _ => ⟨hopen.congr hset, ?_⟩
      rw [scopeStatements_congr hset]
      refine hd.failed (Bool.eq_false_iff.2 fun hok => ?_)
      rw [reportResult_eq_ok_iff.2 hok] at hr
      cases hr
    · next hr =>
      have hopen' : OpenedOn database schema { d with autocommit := wanted } :=
        (hopen.congr hset : OpenedOn database schema d)
      have hscope := scopeStatements_eq hopen'
      have hnames : ∀ s ∈ nameStatements database schema, s ∈ scopeStatements dbc := by
        intro s hs
        rw [scopeStatements_eq hopen]
        exact List.mem_append_left _ hs
      have hcov' := (hd.mono hnames).ran (reportResult_eq_ok_iff.1 hr) rfl
        (fun h => absurd h autocommitOff_notMem_names) wanted fun h => Or.inl (by rw [h])
      refine Monitor.holds_pure fun _ => ⟨hopen', hcov'.mono fun s => ?_⟩
      show s ∈ unlessPending _ d → s ∈ unlessPending _ d
      refine unlessPending_mono fun s hs => ?_
      rw [hscope] at hs
      cases wanted
      · exact hs
      · rw [if_pos rfl, List.append_nil] at hs
        exact List.mem_append_left _ hs
  · rw [if_neg hsend]
    refine Monitor.holds_pure fun hconn => ?_
    have hconn' : dbc.connected = true := hconn
    have hsame : wanted = dbc.autocommit := by simpa [hconn'] using hsend
    rw [hsame]
    exact h hconn'

theorem callsKeep_scoped (database schema : Option Bytes) :
    CallsKeep (scopeMonitor database schema) (Scoped database schema) where
  free t q hq := by
    cases q with
    | post p => exact absurd rfl (hq p)
    | get dbc path timeout => exact trivial
    | delete dbc path timeout => exact trivial
  execute {dbc t} sql count hconn h := by
    obtain ⟨hopen, hcov⟩ := h hconn
    refine (holds_executed dbc t hopen (fun s hs => hs) (fun _ => rfl) hcov).mono ?_
    exact fun a t hd => hd.scoped hopen
  autocommit wanted h := holds_setAutocommit wanted h
  frame _ _ _ h hconn := by
    obtain ⟨hopen, hcov⟩ := h hconn
    exact ⟨hopen, hcov.inForce, hcov.autocommit⟩
  closed dbc t hconn := by cases hconn

/-- A connection that is being opened on the names, with `need` in force. -/
def Opening (database schema : Option Bytes) (need : List Bytes) (dbc : Dbc) (t : Trace) : Prop :=
  OpenedOn database schema dbc ∧ Covered (unlessPending need dbc) dbc t

/-- What is in force at each step of a connect. -/
def inForceAt (database schema : Option Bytes) : ℕ → Dbc → List Bytes
  | 0, _ => []
  | 1, _ => if hasName database then [useDatabase (database.getD [])] else []
  | 2, _ => nameStatements database schema
  | _, dbc => scopeStatements dbc

/-- A statement of the scope at connect is in force once it has been answered with success. -/
theorem holds_opening {dbc : Dbc} {t : Trace} {need : List Bytes}
    (h : Opening database schema need dbc t) (hneed : ∀ s ∈ need, s ∈ scopeStatements dbc)
    (hoff : autocommitOff ∉ need) {sql : Bytes} (hsql : dbc.autocommit = true → ¬IsSetting sql) :
    (scopeMonitor database schema).Holds
      (flProtoExecuteAs dbc sql (-1) { tracked := false, recover := false })
      (fun a t => Result.isSuccess a.1 = true →
        a.2.autocommit = dbc.autocommit ∧ Opening database schema (need ++ [sql]) a.2 t) t := by
  refine (holds_executed dbc t h.1 hneed (fun ht => by cases ht) h.2).mono fun a t' hd hs => ?_
  have hmode := autocommit_of_settings hd.settings
  have hcov := hd.ran hs rfl (fun hmem => absurd hmem hoff) a.2.autocommit fun hon =>
    Or.inr ⟨hsql (hmode.symm.trans hon), hmode.symm.trans hon⟩
  exact ⟨hmode, h.1.congr hd.settings, hcov⟩

theorem mem_scopeStatements_of_name {dbc : Dbc} (hopen : OpenedOn database schema dbc) {s : Bytes}
    (h : s ∈ nameStatements database schema) : s ∈ scopeStatements dbc := by
  rw [scopeStatements_eq hopen]
  exact List.mem_append_left _ h

theorem connectSteps_opening : ConnectSteps (scopeMonitor database schema) database schema
    fun i d t => Opening database schema (inForceAt database schema i d) d t where
  useDatabase d t hd hname := by
    refine (holds_opening hd (by simp [inForceAt]) (by simp [inForceAt]) fun _ =>
      not_isSetting_useDatabase _).mono fun a t' h hs => ?_
    obtain ⟨hopen, hcov⟩ := (h hs).2
    show Opening database schema (if hasName database then _ else _) _ _
    rw [if_pos hname]
    exact ⟨hopen, hcov.inForce, hcov.autocommit⟩
  noDatabase d t hd hname := by
    show Opening database schema (if hasName database then _ else _) _ _
    rwa [if_neg (by simp [hname])]
  useSchema d t hd hname := by
    have hsub : ∀ s ∈ inForceAt database schema 1 d, s ∈ nameStatements database schema :=
      fun s hs => List.mem_append_left _ hs
    refine (holds_opening hd (fun s hs => mem_scopeStatements_of_name hd.1 (hsub s hs))
      (fun hoff => autocommitOff_notMem_names (hsub _ hoff)) fun _ =>
      not_isSetting_useSchema _).mono fun a t' h hs => ?_
    obtain ⟨hopen, hcov⟩ := (h hs).2
    show Opening database schema (_ ++ if hasName schema then _ else _) _ _
    rw [if_pos hname]
    exact ⟨hopen, hcov.inForce, hcov.autocommit⟩
  noSchema d t hd hname := by
    have hnone : inForceAt database schema 2 d = inForceAt database schema 1 d := by
      simp [inForceAt, nameStatements, hname]
    rwa [hnone]
  turnOff d t hd hauto := by
    refine (holds_opening hd (fun s => mem_scopeStatements_of_name hd.1)
      autocommitOff_notMem_names fun hon => ?_).mono fun a t' h hs => ?_
    · rw [hauto] at hon
      cases hon
    · obtain ⟨hmode, hopen, hcov⟩ := h hs
      show Opening database schema (scopeStatements a.2) a.2 t'
      rw [scopeStatements_eq hopen, hmode, hauto]
      exact ⟨hopen, hcov⟩
  leaveOn d t hd hauto := by
    show Opening database schema (scopeStatements d) d t
    rw [scopeStatements_eq hd.1, hauto, if_pos rfl, List.append_nil]
    exact hd

/-- In every run of a connection in which the server says what sessions its answers come from, and no
statement of the scope but a first one is answered with success by a session started in place of the
one that was sent, the application's statements go to sessions that the scope is on. -/
theorem application_runs_in_scope {calls : List ConnectionCall} {dbc d : Dbc} {t : Trace}
    (h : Runs (connectAndRun database schema calls dbc) t d)
    (hhonest : ∀ p reply, (Request.post p, reply) ∈ t → Honest p reply)
    (hfirst : ∀ p reply, (Request.post p, reply) ∈ t → ReplacedAtFirst p reply) :
    ∀ t₁ p reply t₂, t = t₁ ++ (.post p, reply) :: t₂ → p.isApplication = true →
      InScope database schema t₁ p := by
  have hopen : ∀ d t, Opening database schema (inForceAt database schema 0 (openDbc database schema d))
      (openDbc database schema d) t := fun d t => ⟨⟨rfl, rfl⟩, covered_of_no_session rfl⟩
  have hholds := holds_connectAndRun (callsKeep_scoped database schema)
    connectSteps_opening [] (fun d _ _ _ _ => hopen d _) (fun d t hd _ => hd) calls dbc
  obtain ⟨hallow, -⟩ := Monitor.Holds.runs_ofHistory hholds h (by
    intro t₁ q reply t₂ ht
    cases q with
    | get dbc path timeout => exact trivial
    | delete dbc path timeout => exact trivial
    | post p =>
      have hmem : (Request.post p, reply) ∈ t := by
        rw [ht]
        exact List.mem_append_right _ (List.mem_cons_self ..)
      exact ⟨hhonest p reply hmem, hfirst p reply hmem⟩)
  exact fun t₁ p reply t₂ ht happ => hallow t₁ (.post p) reply t₂ ht happ

end

/-- The session is replaced under a SELECT, and again under the first statement of the scope. -/
theorem application_runs_in_scope_select :
    ∃ t d, Runs (connectAndRun (some (lit "APP")) (some (lit "S"))
        [execText "SELECT 1", execText "SELECT 2"] allocDbc) t d ∧
      ∀ t₁ p reply t₂, t = t₁ ++ (.post p, reply) :: t₂ → p.isApplication = true →
        InScope (some (lit "APP")) (some (lit "S")) t₁ p := by
  have h := runs_of_play (connectAndRun (some (lit "APP")) (some (lit "S"))
      [execText "SELECT 1", execText "SELECT 2"] allocDbc)
    [.answered 200 [], answered "s1" true, answered "s1" false, answered "s2" true,
      answered "s3" true, answered "s3" false, answered "s3" false] rfl
  refine ⟨_, _, h, application_runs_in_scope h ?_ ?_⟩
  · intro p reply hmem
    simp only [List.mem_cons, List.not_mem_nil, or_false, Prod.mk.injEq, reduceCtorEq, false_and,
      Request.post.injEq, false_or] at hmem
    rcases hmem with ⟨rfl, rfl⟩ | ⟨rfl, rfl⟩ | ⟨rfl, rfl⟩ | ⟨rfl, rfl⟩ | ⟨rfl, rfl⟩ | ⟨rfl, rfl⟩ <;>
      decide +kernel
  · intro p reply hmem
    simp only [List.mem_cons, List.not_mem_nil, or_false, Prod.mk.injEq, reduceCtorEq, false_and,
      Request.post.injEq, false_or] at hmem
    rcases hmem with ⟨rfl, rfl⟩ | ⟨rfl, rfl⟩ | ⟨rfl, rfl⟩ | ⟨rfl, rfl⟩ | ⟨rfl, rfl⟩ | ⟨rfl, rfl⟩ <;>
      decide +kernel

/-- The session is replaced again under the last statement of the scope: the application's next
statement runs in a session that `USE DATABASE` never reached. -/
theorem application_runs_out_of_scope :
    ∃ t d, Runs (connectAndRun (some (lit "APP")) (some (lit "S"))
        [execText "SELECT 1", execText "SELECT 2"] allocDbc) t d ∧
      (∀ p reply, (Request.post p, reply) ∈ t → Honest p reply) ∧
      ∃ t₁ p reply t₂, t = t₁ ++ (.post p, reply) :: t₂ ∧ p.isApplication = true ∧
        ¬InScope (some (lit "APP")) (some (lit "S")) t₁ p := by
  have h := runs_of_play (connectAndRun (some (lit "APP")) (some (lit "S"))
      [execText "SELECT 1", execText "SELECT 2"] allocDbc)
    [.answered 200 [], answered "s1" true, answered "s1" false, answered "s2" true,
      answered "s2" false, answered "s3" true, answered "s3" false] rfl
  refine ⟨_, _, h, ?_, [_, _, _, _, _, _], _, _, [], rfl, rfl, fun hin => ?_⟩
  · intro p reply hmem
    simp only [List.mem_cons, List.not_mem_nil, or_false, Prod.mk.injEq, reduceCtorEq, false_and,
      Request.post.injEq, false_or] at hmem
    rcases hmem with ⟨rfl, rfl⟩ | ⟨rfl, rfl⟩ | ⟨rfl, rfl⟩ | ⟨rfl, rfl⟩ | ⟨rfl, rfl⟩ | ⟨rfl, rfl⟩ <;>
      decide +kernel
  · obtain ⟨x, hx, hdatabase, -⟩ := hin (Or.inl rfl)
    cases hx
    exact absurd (hdatabase rfl) (by decide +kernel)

end FrostlakeOdbc
