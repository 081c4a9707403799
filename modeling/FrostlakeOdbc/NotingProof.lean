import FrostlakeOdbc.ProtoRule

/-!
# What is noted of a request

The flags of the connection after a request, next to what the statements that ran have left on the
session. What a successful request left is noted; what the first statements of a request left that
failed part way is not, unless it was known before (`flProtoExecuteAs_notes`).
-/

namespace FrostlakeOdbc

open CString JsonText Exchange Client

/-! ## What statements leave behind -/

def touches (s : Statement) : Bool := touchesSession (leadingWords s)

/-- Whether a transaction is open after some statements, if `before` says whether one was before. -/
def leavesOpen (before : Bool) (ran : List Statement) : Bool :=
  ran.foldl (fun isOpen s =>
    match transactionEffect (leadingWords s) with
    | .opens => true
    | .ends => false
    | .neither => isOpen) before

/-- The connection knows what the statements left on the session. -/
def Noted (dbc : Dbc) (ran : List Statement) : Prop :=
  (ran.any touches = true → dbc.sessionDirty = true) ∧
    (leavesOpen false ran = true → dbc.inTransaction = true)

/-- Whether a transaction is open after a statement, as the driver counts it. -/
def noteTransaction (autocommit before : Bool) (s : Statement) : Bool :=
  if leadingWords s = [] then before
  else
    match transactionEffect (leadingWords s) with
    | .opens => true
    | .ends => false
    | .neither => before || !autocommit

theorem noteStatement_eq (dbc : Dbc) (s : Statement) :
    noteStatement dbc s =
      { dbc with
        sessionDirty := dbc.sessionDirty || touches s
        inTransaction := noteTransaction dbc.autocommit dbc.inTransaction s } := by
  unfold noteStatement noteTransaction touches
  by_cases hwords : leadingWords s = []
  · rw [if_pos hwords, if_pos hwords, hwords]
    simp [touchesSession]
  · rw [if_neg hwords, if_neg hwords]
    obtain ⟨_, _, _, _, _, _, _, autocommit, _, _, _, _, _, _, _, _⟩ := dbc
    cases touchesSession (leadingWords s) <;> cases transactionEffect (leadingWords s) <;>
      cases autocommit <;> simp

theorem sessionDirty_foldl (l : List Statement) (dbc : Dbc) :
    (l.foldl noteStatement dbc).sessionDirty = (dbc.sessionDirty || l.any touches) := by
  induction l generalizing dbc with
  | nil => simp
  | cons s l ih => rw [List.foldl_cons, ih, noteStatement_eq, List.any_cons, Bool.or_assoc]

/-- One statement: what it leaves open is noted, if what was open before was. -/
theorem inTransaction_noteStatement {dbc : Dbc} {before : Bool}
    (h : before = true → dbc.inTransaction = true) (s : Statement)
    (hopen : leavesOpen before [s] = true) : (noteStatement dbc s).inTransaction = true := by
  have hone : leavesOpen before [s] =
      match transactionEffect (leadingWords s) with
      | .opens => true
      | .ends => false
      | .neither => before := rfl
  rw [hone] at hopen
  rw [noteStatement_eq, noteTransaction]
  split
  · next hwords =>
    rw [hwords] at hopen
    exact h hopen
  · cases heffect : transactionEffect (leadingWords s) with
    | opens => rfl
    | ends =>
      rw [heffect] at hopen
      cases hopen
    | neither =>
      rw [heffect] at hopen
      exact Bool.or_eq_true_iff.2 (Or.inl (h hopen))

theorem inTransaction_foldl (l : List Statement) {dbc : Dbc} {before : Bool}
    (h : before = true → dbc.inTransaction = true) (hopen : leavesOpen before l = true) :
    (l.foldl noteStatement dbc).inTransaction = true := by
  induction l generalizing dbc before with
  | nil => exact h hopen
  | cons s l ih => exact ih (inTransaction_noteStatement h s) hopen

/-- `fl_session_note` notes what all statements of a request leave. -/
theorem noted_flSessionNote (dbc : Dbc) (sql : Bytes) :
    Noted (flSessionNote dbc sql) (statements sql) := by
  refine ⟨fun htouch => ?_, fun hopen => ?_⟩
  · rw [flSessionNote, sessionDirty_foldl, htouch, Bool.or_true]
  · exact inTransaction_foldl _ (fun h => by cases h) hopen

/-! ## What the engine ran -/

/-- The run ends with an answer to the caller's statement, which is taken in. -/
def AnsweredWith (t : Trace) (root : Value) : Prop :=
  ∃ t' p flags reply, t = t' ++ [(.post p, reply)] ∧ p.origin = .statement flags ∧
    answerTo p reply = some root

/-- The statements of a request that an engine ran without an error before it gave an answer: all of
them, or those before the first that failed. -/
def RanBefore (root : Value) (sql : Bytes) (ran : List Statement) : Prop :=
  if success root then ran = statements sql
  else ∃ failed rest, statements sql = ran ++ failed :: rest

/-- Whether an answer says that its session was started in place of the one that was sent. -/
def replacedBy : Request × HttpReply → Bool
  | (.post p, reply) =>
      match answerTo p reply with
      | some root => replaces p.dbc.sessionId.isSome root
      | none => false
  | _ => false

/-- No answer of a run came from a session that had just replaced the connection's. -/
def kept (t : Trace) : Bool := t.all fun e => !replacedBy e

theorem kept_append (t : Trace) (e : Request × HttpReply) :
    kept (t ++ [e]) = (kept t && !replacedBy e) := by
  rw [kept, List.all_append, List.all_cons, List.all_nil, Bool.and_true]
  rfl

theorem replacedBy_none {p : Post} {reply : HttpReply} (h : answerTo p reply = none) :
    replacedBy (.post p, reply) = false := by
  simp only [replacedBy, h]

theorem replacedBy_some {p : Post} {reply : HttpReply} {root : Value}
    (h : answerTo p reply = some root) :
    replacedBy (.post p, reply) = replaces p.dbc.sessionId.isSome root := by
  simp only [replacedBy, h]

theorem answeredWith_append {t : Trace} {p : Post} {reply : HttpReply} {root : Value}
    (h : AnsweredWith (t ++ [(.post p, reply)]) root) :
    (∃ flags, p.origin = .statement flags) ∧ answerTo p reply = some root := by
  obtain ⟨t', p', flags, reply', heq, horigin, hans⟩ := h
  obtain ⟨-, hlast⟩ := List.append_inj' heq rfl
  cases hlast
  exact ⟨⟨flags, horigin⟩, hans⟩

/-! ## The flags during an execution -/

/-- The flags of `d` are those of `dbc`, unless the session was replaced in the run `t`. -/
structure FlagsKept (dbc d : Dbc) (t : Trace) : Prop where
  settings : d.settings = dbc.settings
  sessionDirty : d.sessionDirty = (dbc.sessionDirty && kept t)
  inTransaction : d.inTransaction = (dbc.inTransaction && kept t)

section

variable {dbc d : Dbc} {t : Trace}

theorem FlagsKept.absorbed {p : Post} {reply : HttpReply} {root : Value}
    (h : FlagsKept dbc p.dbc t) (hans : answerTo p reply = some root) :
    FlagsKept dbc (p.absorbed root) (t ++ [(.post p, reply)]) := by
  refine ⟨?_, ?_, ?_⟩
  · exact (settings_absorbSession _ _ _).trans h.settings
  · rw [Post.absorbed, sessionDirty_absorbSession, h.sessionDirty, kept_append, replacedBy_some hans,
      Bool.and_assoc]
  · rw [Post.absorbed, inTransaction_absorbSession, h.inTransaction, kept_append,
      replacedBy_some hans, Bool.and_assoc]

theorem FlagsKept.unanswered {p : Post} {reply : HttpReply} (h : FlagsKept dbc p.dbc t)
    (hans : answerTo p reply = none) : FlagsKept dbc p.dbc (t ++ [(.post p, reply)]) := by
  have hsame : kept (t ++ [(.post p, reply)]) = kept t := by
    rw [kept_append, replacedBy_none hans, Bool.not_false, Bool.and_true]
  exact ⟨h.settings, hsame ▸ h.sessionDirty, hsame ▸ h.inTransaction⟩

/-- A session is only given up where there was nothing to keep. -/
theorem FlagsKept.forgetSession (h : FlagsKept dbc d t) (htx : d.inTransaction = false)
    (hdirty : d.sessionDirty = false) : FlagsKept dbc (forgetSession d) t :=
  ⟨h.settings, hdirty.symm.trans h.sessionDirty, htx.symm.trans h.inTransaction⟩

/-- What holds after an execution: where the statement was answered, the flags are the kept ones, with
the request noted after a success. -/
def NotesAnswer (dbc : Dbc) (sql : Bytes) (a : Result × Dbc) (t : Trace) : Prop :=
  ∀ root, AnsweredWith t root → ∃ d, FlagsKept dbc d t ∧
    a.2 = if success root then flSessionNote d sql else d

theorem notesAnswer_of_none {sql : Bytes} {a : Result × Dbc} {p : Post} {reply : HttpReply}
    (h : answerTo p reply = none) : NotesAnswer dbc sql a (t ++ [(.post p, reply)]) := by
  intro root hroot
  rw [(answeredWith_append hroot).2] at h
  cases h

end

/-- The monitor that remembers what was exchanged and asks for nothing. -/
def recorder : Monitor Request HttpReply Trace :=
  Monitor.ofHistory (fun _ _ => True) fun _ _ _ => True

theorem holds_notesAnswer (dbc : Dbc) (sql : Bytes) (count : ℤ) {flags : ExecFlags}
    (htracked : flags.tracked = true) :
    recorder.Holds (flProtoExecuteAs dbc sql count flags) (NotesAnswer dbc sql) [] := by
  have hstart : FlagsKept dbc dbc [] := ⟨rfl, (Bool.and_true _).symm, (Bool.and_true _).symm⟩
  have hscope : ScopeKeeps recorder (fun _ => FlagsKept dbc) (NotesAnswer dbc sql)
      (scopeStatements dbc) := by
    intro i stmt d t _ hkept
    refine ⟨trivial, fun reply _ => ?_⟩
    -- whatever the answer is, it is no answer to the caller's statement
    have hno : ∀ a, NotesAnswer dbc sql a (t ++ [(.post ⟨.scope i, d, stmt, -1⟩, reply)]) := by
      intro a root hroot
      obtain ⟨flags, horigin⟩ := (answeredWith_append hroot).1
      cases horigin
    refine afterScope_readReply (p := ⟨.scope i, d, stmt, -1⟩) ?_ ?_ ?_
    · intro hnone
      refine ⟨⟨fun _ _ => hno _, fun htx hdirty => ?_⟩, fun _ _ => hno _⟩
      exact (hkept.unanswered hnone).forgetSession htx hdirty
    · exact fun root hans _ => hkept.absorbed hans
    · exact fun _ _ _ _ => hno _
  have hstmt : StatementKeeps recorder (fun _ => FlagsKept dbc) (FlagsKept dbc)
      (NotesAnswer dbc sql) sql count flags := by
    intro d t hkept
    refine ⟨trivial, fun reply _ => ?_⟩
    refine afterStatement_readReply (p := ⟨.statement flags, d, sql, count⟩) ?_ ?_
    · intro hnone
      refine ⟨⟨fun _ _ => notesAnswer_of_none hnone, fun htx hdirty => ?_⟩,
        fun _ _ => notesAnswer_of_none hnone⟩
      exact (hkept.unanswered hnone).forgetSession htx hdirty
    · intro root hans root' hroot'
      have hsame := (answeredWith_append hroot').2
      rw [hans] at hsame
      cases hsame
      refine ⟨_, hkept.absorbed hans, ?_⟩
      rw [htracked, Bool.and_true]
  have hpass : ∀ d t, FlagsKept dbc d t → FlagsKept dbc { d with scopePending := false } t :=
    fun d t h => ⟨h.settings, h.sessionDirty, h.inTransaction⟩
  exact holds_flProtoExecuteAs hscope hpass hstmt (fun d t h => h.settings) (fun _ => hstart)
    fun _ => hstart

/-- After an answered request the connection knows what the statements that ran left on the session
if the request was a success. If it failed part way, it does only where it knew so before the call,
and no answer of the call came from a session that had replaced the connection's. -/
theorem flProtoExecuteAs_notes {dbc : Dbc} {sql : Bytes} {count : ℤ} {flags : ExecFlags} {t : Trace}
    {a : Result × Dbc} (h : Runs (flProtoExecuteAs dbc sql count flags) t a)
    (htracked : flags.tracked = true) {root : Value} (hans : AnsweredWith t root)
    {ran : List Statement} (hran : RanBefore root sql ran) :
    Noted a.2 ran ↔ success root = true ∨
      ((ran.any touches = true → dbc.sessionDirty = true ∧ kept t = true) ∧
        (leavesOpen false ran = true → dbc.inTransaction = true ∧ kept t = true)) := by
  obtain ⟨-, hpost⟩ := Monitor.Holds.runs_ofHistory
    (holds_notesAnswer dbc sql count htracked) h fun _ _ _ _ _ => trivial
  obtain ⟨d, hd, ha⟩ := hpost root hans
  rw [RanBefore] at hran
  cases hs : success root
  · rw [hs, if_neg (by decide)] at ha
    rw [ha, Noted, hd.sessionDirty, hd.inTransaction, Bool.and_eq_true, Bool.and_eq_true]
    simp
  · rw [hs, if_pos rfl] at ha hran
    rw [ha, hran]
    exact ⟨fun _ => Or.inl rfl, fun _ => noted_flSessionNote d sql⟩

/-- A connection on the session `s1`. -/
def sessionDbc : Dbc :=
  { allocDbc with connected := true, sessionId := some (lit "s1"), tracksSessions := 1 }

theorem flProtoExecuteAs_notes_pack :
    ∃ t a root, Runs (flProtoExecuteAs sessionDbc (lit "USE SCHEMA A; SELECT 1") 2
        { tracked := true, recover := true }) t a ∧ AnsweredWith t root ∧
      (Noted a.2 (statements (lit "USE SCHEMA A; SELECT 1")) ↔ success root = true ∨
        (((statements (lit "USE SCHEMA A; SELECT 1")).any touches = true →
            sessionDbc.sessionDirty = true ∧ kept t = true) ∧
          (leavesOpen false (statements (lit "USE SCHEMA A; SELECT 1")) = true →
            sessionDbc.inTransaction = true ∧ kept t = true))) :=
  have h := runs_of_play (flProtoExecuteAs sessionDbc (lit "USE SCHEMA A; SELECT 1") 2
      { tracked := true, recover := true })
    [.answered 200 (lit "\x7b\"success\":true,\"sessionId\":\"s1\"\x7d")] rfl
  have hans : AnsweredWith _
      (.object [(lit "success", .bool true), (lit "sessionId", .string (lit "s1"))]) :=
    ⟨[], _, _, _, rfl, rfl, rfl⟩
  ⟨_, _, _, h, hans, flProtoExecuteAs_notes h rfl hans rfl⟩

/-- Of the two statements the second fails: the schema the first moved to is not noted. -/
theorem flProtoExecuteAs_unnoted :
    ∃ t a root, Runs (flProtoExecuteAs sessionDbc (lit "USE SCHEMA A; SELECT bad") 2
        { tracked := true, recover := true }) t a ∧ AnsweredWith t root ∧
      RanBefore root (lit "USE SCHEMA A; SELECT bad") [⟨lit "USE SCHEMA A; SELECT bad", 12⟩] ∧
      ¬Noted a.2 [⟨lit "USE SCHEMA A; SELECT bad", 12⟩] :=
  have h := runs_of_play (flProtoExecuteAs sessionDbc (lit "USE SCHEMA A; SELECT bad") 2
      { tracked := true, recover := true })
    [.answered 200 (lit ("\x7b\"success\":false,\"sessionId\":\"s1\",\"newSession\":false," ++
      "\"errorMessage\":\"no such column\"\x7d"))] rfl
  ⟨_, _, _, h, ⟨[], _, _, _, rfl, rfl, rfl⟩, ⟨⟨lit " SELECT bad", 11⟩, [], rfl⟩,
    fun hnoted => absurd (hnoted.1 (by decide +kernel)) (by decide)⟩

/-! ## Scripting blocks -/

/-- Whether a request is one scripting block, by its leading words: DECLARE, or BEGIN and a word that
does not make it open a transaction. -/
def isBlock (sql : Bytes) : Bool :=
  match leadingWords ⟨sql, sql.length⟩ with
  | verb :: rest =>
      verb = lit "DECLARE" || verb = lit "BEGIN" && rest.head?.any fun word =>
        word ≠ lit "TRANSACTION" && word ≠ lit "WORK" && word ≠ lit "NAME"
  | [] => false

/-- Whether a statement ends a transaction, as the driver reads it. -/
def endsTransaction (s : Statement) : Bool := transactionEffect (leadingWords s) = .ends

/-- Whether what is known of the transaction after a statement does not depend on what was known
before. -/
def settles (autocommit : Bool) (s : Statement) : Bool :=
  leadingWords s ≠ [] && (transactionEffect (leadingWords s) ≠ .neither || !autocommit)

theorem noteTransaction_eq (autocommit before : Bool) (s : Statement) :
    noteTransaction autocommit before s =
      if settles autocommit s then !endsTransaction s else before := by
  unfold noteTransaction settles endsTransaction
  by_cases hwords : leadingWords s = []
  · rw [if_pos hwords, if_neg (by simp [hwords])]
  · rw [if_neg hwords]
    cases transactionEffect (leadingWords s) <;> cases autocommit <;> simp [hwords]

theorem inTransaction_flSessionNote (dbc : Dbc) (sql : Bytes) :
    (flSessionNote dbc sql).inTransaction =
      (statements sql).foldl (noteTransaction dbc.autocommit) dbc.inTransaction := by
  unfold flSessionNote
  induction statements sql generalizing dbc with
  | nil => rfl
  | cons s l ih =>
    rw [List.foldl_cons, ih, noteStatement_eq]
    rfl

/-- The last statement that settles it says whether a transaction is open. -/
theorem foldl_noteTransaction (autocommit before : Bool) (l : List Statement) :
    l.foldl (noteTransaction autocommit) before =
      match (l.filter (settles autocommit)).getLast? with
      | some s => !endsTransaction s
      | none => before := by
  induction l generalizing before with
  | nil => rfl
  | cons s l ih =>
    rw [List.foldl_cons, ih, noteTransaction_eq, List.filter_cons]
    by_cases hsettles : settles autocommit s = true
    · rw [if_pos hsettles, if_pos hsettles, List.getLast?_cons]
      cases (l.filter (settles autocommit)).getLast? <;> rfl
    · rw [if_neg hsettles, if_neg hsettles]

/-- Noting a request, of one block or any other, lowers no flag exactly if no transaction was open or
the last of its statements that settle it ends none. -/
theorem flSessionNote_lowers_nothing_iff (dbc : Dbc) (sql : Bytes) :
    ((dbc.inTransaction = true → (flSessionNote dbc sql).inTransaction = true) ∧
      (dbc.sessionDirty = true → (flSessionNote dbc sql).sessionDirty = true)) ↔
    dbc.inTransaction = false ∨
      ∀ s, ((statements sql).filter (settles dbc.autocommit)).getLast? = some s →
        endsTransaction s = false := by
  have hdirty : dbc.sessionDirty = true → (flSessionNote dbc sql).sessionDirty = true := by
    intro h
    rw [flSessionNote, sessionDirty_foldl, h, Bool.true_or]
  rw [inTransaction_flSessionNote, foldl_noteTransaction, and_iff_left hdirty]
  cases ((statements sql).filter (settles dbc.autocommit)).getLast? with
  | none => simp
  | some s => cases dbc.inTransaction <;> simp

/-- The branch of the block that would commit is not taken. -/
theorem flSessionNote_lowers_block :
    isBlock (lit "BEGIN IF (x) THEN SELECT 1; COMMIT; END IF; END") = true ∧
    (flSessionNote { sessionDbc with inTransaction := true }
      (lit "BEGIN IF (x) THEN SELECT 1; COMMIT; END IF; END")).inTransaction = false := by
  decide +kernel

end FrostlakeOdbc
