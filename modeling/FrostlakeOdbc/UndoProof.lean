import FrostlakeOdbc.ConnectRule
import FrostlakeOdbc.SessionHistory

/-!
# Putting the scope on again undoes nothing

The statements of the scope go only to a session in which the application has set up nothing, in
every run in which no statement that sets something up is answered by a session that has just
replaced the connection's (`scope_undoes_nothing`).
-/

namespace FrostlakeOdbc

open CString JsonText Exchange Client

/-- A request of the application that sets up something on its session. -/
def Post.setsUp (p : Post) : Bool := p.isApplication && (statements p.sql).any touches

/-- Nothing of the application's was set up in the session `x` since it started. -/
def Untouched (x : Bytes) (t : Trace) : Prop := ∀ q ∈ inSession x t, q.setsUp = false

instance (x : Bytes) (t : Trace) : Decidable (Untouched x t) :=
  inferInstanceAs (Decidable (∀ q ∈ inSession x t, q.setsUp = false))

/-- The statements of the scope are sent to untouched sessions. -/
def sendsScope (t : Trace) : Request → Prop
  | .post p => ∀ i, p.origin = .scope i → ∀ x, p.dbc.sessionId = some x → Untouched x t
  | _ => True

/-- The answers on which the driver may rely: no statement that sets something up was answered with
success by a session started in place of the one that was sent. -/
def keepsSetUp (_ : Trace) : Request → HttpReply → Prop
  | .post p, reply => ∀ root, answerTo p reply = some root → success root = true →
      p.setsUp = true → replaces p.dbc.sessionId.isSome root = false
  | _, _ => True

def undoMonitor : Monitor Request HttpReply Trace := Monitor.ofHistory sendsScope keepsSetUp

/-- As long as the scope is to go on, the session is untouched. -/
def PendingUntouched (dbc : Dbc) (t : Trace) : Prop :=
  dbc.scopePending = true → ∀ x, dbc.sessionId = some x → Untouched x t

theorem pendingUntouched_of_not_pending {dbc : Dbc} (h : dbc.scopePending = false) (t : Trace) :
    PendingUntouched dbc t := by
  intro hp
  rw [h] at hp
  cases hp

theorem pendingUntouched_of_no_session {dbc : Dbc} (h : dbc.sessionId = none) (t : Trace) :
    PendingUntouched dbc t := by
  intro _ x hx
  rw [h] at hx
  cases hx

section

variable {t : Trace} {p : Post} {reply : HttpReply} {root : Value}

theorem PendingUntouched.unanswered (h : PendingUntouched p.dbc t) (hans : answerTo p reply = none) :
    PendingUntouched p.dbc (t ++ [(.post p, reply)]) := by
  intro hp x hx q hq
  rw [inSession_of_none hans] at hq
  exact h hp x hx q hq

/-- A statement that sets up nothing leaves its session untouched. -/
theorem PendingUntouched.absorbed (h : PendingUntouched p.dbc t) (hp : p.dbc.scopePending = true)
    (hans : answerTo p reply = some root) (hsets : p.setsUp = false) :
    PendingUntouched (p.absorbed root) (t ++ [(.post p, reply)]) := by
  intro _ x hx q hq
  rcases mem_inSession hans hx hq with ⟨hsame, -, hq⟩ | ⟨-, hsame, hq⟩ | ⟨-, rfl⟩
  · exact h hp x hsame q hq
  · exact h hp x hsame q hq
  · exact hsets

/-- Where the scope was on, it becomes pending only with a session that was replaced, and in which
nothing but the statement has run. -/
theorem pendingUntouched_absorbed (hp : p.dbc.scopePending = false)
    (hans : answerTo p reply = some root) (hkeeps : keepsSetUp t (.post p) reply) :
    PendingUntouched (p.absorbed root) (t ++ [(.post p, reply)]) := by
  intro hpending x hx q hq
  rw [Post.absorbed, scopePending_absorbSession, hp, Bool.false_or] at hpending
  have hnew := hpending
  simp only [replaces, Bool.and_eq_true, decide_eq_true_eq] at hnew
  rcases mem_inSession hans hx hq with ⟨-, hstarts, -⟩ | ⟨hnone, -, -⟩ | ⟨hs, rfl⟩
  · rw [starts, decide_eq_true hnew.2, Bool.true_or] at hstarts
    cases hstarts
  · rw [hnone] at hnew
    cases hnew.1.2
  · by_contra hsets
    rw [Bool.not_eq_false] at hsets
    rw [hkeeps root hans hs hsets] at hpending
    cases hpending

theorem PendingUntouched.noted {dbc : Dbc} (h : PendingUntouched dbc t) (sql : Bytes) :
    PendingUntouched (flSessionNote dbc sql) t := by
  obtain ⟨dirty, isOpen, heq⟩ := flSessionNote_eq dbc sql
  rw [heq]
  exact h

end

/-- What holds before each statement of a pending scope. -/
structure PendingOn (dbc d : Dbc) (t : Trace) : Prop where
  settings : d.settings = dbc.settings
  pending : d.scopePending = true
  untouched : PendingUntouched d t

/-- What holds before the statement itself: the scope is on. -/
structure ScopeOn (dbc d : Dbc) : Prop where
  settings : d.settings = dbc.settings
  on : d.scopePending = false

theorem afterLoss_pendingOn {dbc d : Dbc} (hset : d.settings = dbc.settings) (t : Trace) :
    AfterLoss (fun _ => PendingOn dbc) (fun a t => PendingUntouched a.2 t) d t := by
  have hforget : PendingUntouched (forgetSession d) t := pendingUntouched_of_no_session rfl t
  exact ⟨fun _ _ => hforget, fun _ _ => ⟨(settings_forgetSession d).trans hset, rfl, hforget⟩⟩

theorem scopeKeeps_pendingOn (dbc : Dbc) :
    ScopeKeeps undoMonitor (fun _ => PendingOn dbc) (fun a t => PendingUntouched a.2 t)
      (scopeStatements dbc) := by
  intro i stmt d t _ hd
  refine ⟨fun _ _ x hx => hd.untouched hd.pending x hx, fun reply _ => ?_⟩
  have habsorbed : ∀ root, answerTo ⟨.scope i, d, stmt, -1⟩ reply = some root →
      PendingUntouched (absorbSession d root d.sessionId.isSome)
        (t ++ [(.post ⟨.scope i, d, stmt, -1⟩, reply)]) := fun root hans =>
    hd.untouched.absorbed hd.pending hans rfl
  refine afterScope_readReply (p := ⟨.scope i, d, stmt, -1⟩) ?_ ?_ ?_
  · intro hnone
    exact ⟨afterLoss_pendingOn hd.settings _, fun _ _ => hd.untouched.unanswered hnone⟩
  · intro root hans _
    refine ⟨(settings_absorbSession d root _).trans hd.settings, ?_, habsorbed root hans⟩
    rw [Post.absorbed, scopePending_absorbSession, hd.pending, Bool.true_or]
  · exact fun root hans _ _ => habsorbed root hans

theorem statementKeeps_scopeOn (dbc : Dbc) (sql : Bytes) (count : ℤ) (flags : ExecFlags) :
    StatementKeeps undoMonitor (fun _ => PendingOn dbc) (fun d _ => ScopeOn dbc d)
      (fun a t => PendingUntouched a.2 t) sql count flags := by
  intro d t hd
  refine ⟨fun i hi => ?_, fun reply hkeeps => ?_⟩
  · cases hi
  refine afterStatement_readReply (p := ⟨.statement flags, d, sql, count⟩) ?_ ?_
  · intro hnone
    exact ⟨afterLoss_pendingOn hd.settings _, fun _ _ => pendingUntouched_of_not_pending hd.on _⟩
  · intro root hans
    have habsorbed := pendingUntouched_absorbed (t := t) hd.on hans hkeeps
    dsimp only
    split
    · exact habsorbed.noted sql
    · exact habsorbed

/-- Every execution sends its scope to untouched sessions, and leaves a pending scope with one. -/
theorem holds_pendingUntouched (dbc : Dbc) (t : Trace) (h : PendingUntouched dbc t) (sql : Bytes)
    (count : ℤ) (flags : ExecFlags) :
    undoMonitor.Holds (flProtoExecuteAs dbc sql count flags) (fun a t => PendingUntouched a.2 t) t := by
  exact holds_flProtoExecuteAs (scopeKeeps_pendingOn dbc) (fun d t hd => ⟨hd.settings, rfl⟩)
    (statementKeeps_scopeOn dbc sql count flags) (fun d t hd => hd.settings)
    (fun hp => ⟨rfl, hp, h⟩) fun hp => ⟨rfl, hp⟩

theorem callsKeep_pendingUntouched : CallsKeep undoMonitor PendingUntouched where
  free t q hq := by
    cases q with
    | post p => exact absurd rfl (hq p)
    | get dbc path timeout => exact trivial
    | delete dbc path timeout => exact trivial
  execute sql count _ h := holds_pendingUntouched _ _ h sql count _
  autocommit wanted h :=
    holds_mirror wanted (fun _ => holds_pendingUntouched _ _ h _ _ _) (fun _ _ hd => hd) h
  frame _ _ _ h := h
  closed _ t := pendingUntouched_of_no_session rfl t

theorem connectSteps_pendingUntouched (database schema : Option Bytes) :
    ConnectSteps undoMonitor database schema fun _ => PendingUntouched where
  useDatabase d t hd _ := (holds_pendingUntouched d t hd _ _ _).mono fun _ _ h _ => h
  noDatabase _ _ hd _ := hd
  useSchema d t hd _ := (holds_pendingUntouched d t hd _ _ _).mono fun _ _ h _ => h
  noSchema _ _ hd _ := hd
  turnOff d t hd _ := (holds_pendingUntouched d t hd _ _ _).mono fun _ _ h _ => h
  leaveOn _ _ hd _ := hd

/-- In every run of a connection in which no statement that sets something up is answered by a
session started in place of the one that was sent, the statements of the scope go only to sessions
in which the application has set up nothing since they started. -/
theorem scope_undoes_nothing {database schema : Option Bytes} {calls : List ConnectionCall}
    {dbc d : Dbc} {t : Trace} (h : Runs (connectAndRun database schema calls dbc) t d)
    (hkeeps : ∀ p reply root, (Request.post p, reply) ∈ t → answerTo p reply = some root →
      success root = true → p.setsUp = true → replaces p.dbc.sessionId.isSome root = false) :
    ∀ t₁ p reply t₂ i x, t = t₁ ++ (.post p, reply) :: t₂ → p.origin = .scope i →
      p.dbc.sessionId = some x → Untouched x t₁ := by
  have hholds := holds_connectAndRun callsKeep_pendingUntouched
    (connectSteps_pendingUntouched database schema) []
    (fun d _ _ _ _ => pendingUntouched_of_no_session rfl _) (fun _ _ hd => hd) calls dbc
  obtain ⟨hallow, -⟩ := Monitor.Holds.runs_ofHistory hholds h (by
    intro t₁ q reply t₂ ht
    cases q with
    | get dbc path timeout => exact trivial
    | delete dbc path timeout => exact trivial
    | post p =>
      intro root hans hs hsets
      exact hkeeps p reply root (by rw [ht]; simp) hans hs hsets)
  exact fun t₁ p reply t₂ i x ht hi hx => hallow t₁ (.post p) reply t₂ ht i hi x hx

/-- The session is replaced under a SELECT, so the scope goes on the new one. -/
theorem scope_undoes_nothing_select :
    ∃ t d, Runs (connectAndRun (some (lit "APP")) none [execText "SELECT 1", execText "SELECT 2"]
        allocDbc) t d ∧
      ∀ t₁ p reply t₂ i x, t = t₁ ++ (.post p, reply) :: t₂ → p.origin = .scope i →
        p.dbc.sessionId = some x → Untouched x t₁ := by
  have h := runs_of_play (connectAndRun (some (lit "APP")) none
      [execText "SELECT 1", execText "SELECT 2"] allocDbc)
    [.answered 200 [], answered "s1" true, answered "s2" true, answered "s2" false,
      answered "s2" false] rfl
  refine ⟨_, _, h, scope_undoes_nothing h ?_⟩
  intro p reply root hmem hans hs hsets
  simp only [List.mem_cons, List.not_mem_nil, or_false, Prod.mk.injEq, reduceCtorEq, false_and,
    Request.post.injEq, false_or] at hmem
  rcases hmem with ⟨rfl, -⟩ | ⟨rfl, -⟩ | ⟨rfl, -⟩ | ⟨rfl, -⟩ <;> exact absurd hsets (by decide +kernel)

/-- The session is replaced under the application's own USE, and the scope goes on the new one. -/
theorem scope_undoes_use :
    ∃ t d, Runs (connectAndRun (some (lit "APP")) none
        [execText "USE SCHEMA OTHER", execText "SELECT 1"] allocDbc) t d ∧
      ∃ t₁ p reply t₂ i x, t = t₁ ++ (.post p, reply) :: t₂ ∧ p.origin = .scope i ∧
        p.dbc.sessionId = some x ∧ ¬Untouched x t₁ := by
  have h := runs_of_play (connectAndRun (some (lit "APP")) none
      [execText "USE SCHEMA OTHER", execText "SELECT 1"] allocDbc)
    [.answered 200 [], answered "s1" true, answered "s2" true, answered "s2" false,
      answered "s2" false] rfl
  refine ⟨_, _, h, [_, _, _], _, _, _, 0, lit "s2", rfl, rfl, rfl, ?_⟩
  decide +kernel

end FrostlakeOdbc
