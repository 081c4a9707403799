import FrostlakeOdbc.ConnectRule
import FrostlakeOdbc.RequestProof
import FrostlakeOdbc.SessionHistory

/-!
# What requests say of the session

The session a request names, and whether it requires it, next to the answers of the connection so
far (`carries_runs`).
-/

namespace FrostlakeOdbc

open CString JsonText Exchange Client

/-! ## On the wire -/

/-- The session the body of a request names. -/
def Post.carriedSession (p : Post) : Option Bytes :=
  flJsonGetString (flJsonParse p.body) (lit "sessionId")

/-- Whether the body of a request requires its session. -/
def Post.carriesRequire (p : Post) : Bool :=
  flJsonGetBool (flJsonParse p.body) (lit "requireSession") false

theorem flJsonGet_sessionId (dbc : Dbc) (sql : Bytes) (count : ℤ) :
    flJsonGet (some (.object (requestMembers dbc sql count))) (lit "sessionId") =
      dbc.sessionId.map .string := by
  unfold requestMembers
  cases dbc.sessionId <;> split_ifs <;> rfl

theorem flJsonGetBool_requireSession (dbc : Dbc) (sql : Bytes) (count : ℤ) :
    flJsonGetBool (some (.object (requestMembers dbc sql count))) (lit "requireSession") false =
      (dbc.sessionId.isSome && decide (dbc.tracksSessions = 1)) := by
  unfold requestMembers
  cases dbc.sessionId with
  | none => split_ifs <;> rfl
  | some id =>
    by_cases htracks : dbc.tracksSessions = 1
    · rw [decide_eq_true htracks]
      simp only [if_pos htracks]
      rfl
    · rw [decide_eq_false htracks]
      simp only [if_neg htracks]
      split_ifs <;> rfl

theorem carriedSession_eq (p : Post) : p.carriedSession = p.dbc.sessionId.map cstr := by
  obtain ⟨count', hparse⟩ := exists_requestMembers p.dbc p.sql p.count
  unfold Post.carriedSession Post.body flJsonGetString
  rw [hparse, flJsonGet_sessionId]
  cases p.dbc.sessionId with
  | none => rfl
  | some id =>
    show some (cstr (cstr id)) = some (cstr id)
    rw [cstr_eq_self (zero_notMem_cstr id)]

theorem carriesRequire_eq (p : Post) :
    p.carriesRequire = (p.dbc.sessionId.isSome && decide (p.dbc.tracksSessions = 1)) := by
  obtain ⟨count', hparse⟩ := exists_requestMembers p.dbc p.sql p.count
  unfold Post.carriesRequire Post.body
  rw [hparse, flJsonGetBool_requireSession, Option.isSome_map]

/-! ## What the answers told -/

/-- The session the connection is on after an exchange: the one the answer names if it is taken in,
and none once a session is lost or released. -/
def followSession (session : Option Bytes) : Request × HttpReply → Option Bytes
  | (.post p, reply) =>
      match answerTo p reply with
      | some root => (namedSession root).or session
      | none => if losesSession p reply then none else session
  | _ => none

/-- The session the latest answer named that was taken in since the connect and the last loss. -/
def currentSession (t : Trace) : Option Bytes := t.foldl followSession none

/-- An answer that was taken in, names a session and says whether it is new. -/
def reports : Request × HttpReply → Bool
  | (.post p, reply) =>
      (answerTo p reply).any fun root => (namedSession root).isSome && (newSession root).isSome
  | _ => false

/-- What the answers told: the session the connection is on, and whether some answer reported. -/
structure Told where
  session : Option Bytes
  reported : Bool

def Told.next (g : Told) (e : Request × HttpReply) : Told :=
  ⟨followSession g.session e, g.reported || reports e⟩

/-- The connection holds of its session what the answers told. -/
structure Follows (dbc : Dbc) (g : Told) : Prop where
  session : dbc.sessionId = g.session
  tracks : dbc.tracksSessions = 1 ↔ g.reported = true

theorem zero_notMem_flJsonGetString {node : Option Value} {key text : Bytes}
    (h : flJsonGetString node key = some text) : 0 ∉ text := by
  unfold flJsonGetString at h
  split at h
  · cases h
    exact zero_notMem_cstr _
  · cases h

theorem zero_notMem_namedSession {root : Value} {id : Bytes} (h : namedSession root = some id) :
    0 ∉ id := by
  unfold namedSession at h
  split at h
  · next hget =>
    cases h
    exact zero_notMem_flJsonGetString hget
  · cases h

theorem tracksSessions_absorbSession (dbc : Dbc) (root : Value) (sent : Bool) :
    (absorbSession dbc root sent).tracksSessions = 1 ↔
      dbc.tracksSessions = 1 ∨ ((namedSession root).isSome && (newSession root).isSome) = true := by
  unfold absorbSession
  cases namedSession root with
  | none => simp
  | some session =>
    cases newSession root with
    | none =>
      dsimp only
      by_cases hneg : dbc.tracksSessions < 0
      · rw [if_pos hneg]
        have hne : dbc.tracksSessions ≠ 1 := by omega
        simp [hne]
      · rw [if_neg hneg]
        simp
    | some started =>
      dsimp only
      split <;> simp [resetSessionState]

theorem zero_notMem_followSession {session : Option Bytes} (h : ∀ id, session = some id → 0 ∉ id)
    (e : Request × HttpReply) : ∀ id, followSession session e = some id → 0 ∉ id := by
  intro id hid
  unfold followSession at hid
  split at hid
  · split at hid
    · next root _ =>
      cases hnamed : namedSession root with
      | none =>
        rw [hnamed, Option.none_or] at hid
        exact h id hid
      | some session =>
        rw [hnamed, Option.some_or] at hid
        cases hid
        exact zero_notMem_namedSession hnamed
    · split at hid
      · cases hid
      · exact h id hid
  · cases hid

theorem zero_notMem_foldl_followSession {session : Option Bytes}
    (h : ∀ id, session = some id → 0 ∉ id) (t : Trace) :
    ∀ id, t.foldl followSession session = some id → 0 ∉ id := by
  induction t generalizing session with
  | nil => exact h
  | cons e t ih => exact ih (zero_notMem_followSession h e)

section

variable {g : Told} {p : Post} {reply : HttpReply} {root : Value}

theorem Follows.absorbed (h : Follows p.dbc g) (hans : answerTo p reply = some root) :
    Follows (p.absorbed root) (g.next (.post p, reply)) := by
  constructor
  · rw [Post.absorbed, sessionId_absorbSession, h.session]
    simp only [Told.next, followSession, hans]
  · rw [Post.absorbed, tracksSessions_absorbSession, h.tracks]
    simp only [Told.next, reports, hans, Option.any_some, Bool.or_eq_true]

theorem reported_next_of_none (hans : answerTo p reply = none) :
    (g.next (.post p, reply)).reported = g.reported := by
  simp only [Told.next, reports, hans, Option.any_none, Bool.or_false]

theorem Follows.lost (h : Follows p.dbc g) (hloses : losesSession p reply = true) :
    Follows (forgetSession p.dbc) (g.next (.post p, reply)) := by
  have hans := answerTo_of_losesSession hloses
  constructor
  · simp only [Told.next, followSession, hans, hloses, if_true]
    rfl
  · rw [reported_next_of_none hans]
    exact h.tracks

theorem Follows.unanswered (h : Follows p.dbc g) (hans : answerTo p reply = none)
    (hkeeps : losesSession p reply = false) : Follows p.dbc (g.next (.post p, reply)) := by
  constructor
  · rw [h.session]
    simp only [Told.next, followSession, hans, hkeeps, Bool.false_eq_true, if_false]
  · rw [reported_next_of_none hans]
    exact h.tracks

theorem Follows.noted {dbc : Dbc} (h : Follows dbc g) (sql : Bytes) :
    Follows (flSessionNote dbc sql) g := by
  obtain ⟨dirty, isOpen, heq⟩ := flSessionNote_eq dbc sql
  rw [heq]
  exact ⟨h.session, h.tracks⟩

end

/-- Every POST says of the session what the answers so far told. Other requests may be made where
`others` holds. -/
def toldMonitor (others : Prop) : Monitor Request HttpReply Told where
  next g q reply := g.next (q, reply)
  allows g q := match q with
    | .post p => Follows p.dbc g
    | _ => others
  admits _ _ _ := True

theorem admits_toldMonitor (others : Prop) (g : Told) (t : Trace) :
    (toldMonitor others).Admits g t := by
  induction t generalizing g with
  | nil => exact trivial
  | cons e t ih => exact ⟨trivial, ih _⟩

theorem after_toldMonitor (others : Prop) (g : Told) (t : Trace) :
    (toldMonitor others).after g t =
      ⟨t.foldl followSession g.session, g.reported || t.any reports⟩ := by
  induction t generalizing g with
  | nil => simp [Monitor.after]
  | cons e t ih =>
    rw [Monitor.after, ih, List.foldl_cons, List.any_cons, ← Bool.or_assoc]
    rfl

/-! ## Whole runs -/

theorem postsKeep_follows (others : Prop) : PostsKeep (toldMonitor others) Follows where
  allows hd := hd
  lost hd _ hloses := hd.lost hloses
  failed hd _ hans hkeeps := hd.unanswered hans hkeeps
  absorbed hd _ hans := hd.absorbed hans
  noted sql hd := hd.noted sql
  settled hd := ⟨hd.session, hd.tracks⟩

theorem holds_follows (others : Prop) (dbc : Dbc) (g : Told) (h : Follows dbc g) (sql : Bytes)
    (count : ℤ) (flags : ExecFlags) :
    (toldMonitor others).Holds (flProtoExecuteAs dbc sql count flags)
      (fun a g => Follows a.2 g) g :=
  (postsKeep_follows others).holds_execute h sql count flags

/-- An open connection holds what the answers told. -/
def OpenFollows (dbc : Dbc) (g : Told) : Prop := dbc.connected = true → Follows dbc g

theorem callsKeep_follows : CallsKeep (toldMonitor True) OpenFollows where
  free g q hq := by
    cases q with
    | post p => exact absurd rfl (hq p)
    | get dbc path timeout => exact trivial
    | delete dbc path timeout => exact trivial
  execute sql count hconn h := (holds_follows True _ _ (h hconn) sql count _).mono fun _ _ h _ => h
  autocommit wanted h := by
    refine holds_mirror wanted (fun hconn => ?_) (fun d g hd hconn => ?_) h
    · exact (holds_follows True _ _ (h hconn) _ _ _).mono fun _ _ h _ => h
    · exact ⟨(hd hconn).session, (hd hconn).tracks⟩
  frame _ _ _ h hconn := ⟨(h hconn).session, (h hconn).tracks⟩
  closed _ _ hconn := by cases hconn

theorem connectSteps_follows (database schema : Option Bytes) :
    ConnectSteps (toldMonitor True) database schema fun _ => Follows where
  useDatabase d g hd _ := (holds_follows True d g hd _ _ _).mono fun _ _ h _ =>
    ⟨h.session, h.tracks⟩
  noDatabase _ _ hd _ := hd
  useSchema d g hd _ := (holds_follows True d g hd _ _ _).mono fun _ _ h _ =>
    ⟨h.session, h.tracks⟩
  noSchema _ _ hd _ := hd
  turnOff d g hd _ := (holds_follows True d g hd _ _ _).mono fun _ _ h _ => h
  leaveOn _ _ hd _ := hd

/-- In every run of a connection, a request names the session the latest answer named that was taken
in since the last loss, and none if there was no such answer; and it requires the session exactly if
it names one and some answer has said of a session whether it is new. -/
theorem carries_runs {database schema : Option Bytes} {calls : List ConnectionCall} {dbc d : Dbc}
    {t : Trace} (h : Runs (connectAndRun database schema calls dbc) t d) :
    ∀ t₁ p reply t₂, t = t₁ ++ (.post p, reply) :: t₂ →
      p.carriedSession = currentSession t₁ ∧
      p.carriesRequire = ((currentSession t₁).isSome && t₁.any reports) := by
  have hopen : ∀ d d₀ path timeout reply, Follows (openDbc database schema d)
      ((toldMonitor True).next ⟨none, false⟩ (.get d₀ path timeout) reply) := by
    intro d d₀ path timeout reply
    have hunknown : (openDbc database schema d).tracksSessions = -1 := rfl
    refine ⟨rfl, fun h => ?_, fun h => by cases h⟩
    omega
  have hholds := holds_connectAndRun callsKeep_follows (connectSteps_follows database schema)
    ⟨none, false⟩ hopen (fun d g hd _ => hd) calls dbc
  intro t₁ p reply t₂ ht
  have hallow := (hholds.runs h (admits_toldMonitor True _ t)).1 t₁ (.post p) reply t₂ ht
  rw [after_toldMonitor, Bool.false_or] at hallow
  have hfollows : Follows p.dbc ⟨currentSession t₁, t₁.any reports⟩ := hallow
  rw [carriedSession_eq, carriesRequire_eq, hfollows.session]
  constructor
  · cases hid : currentSession t₁ with
    | none => rfl
    | some id =>
      have htext := zero_notMem_foldl_followSession (fun id h => by cases h) t₁ id hid
      rw [Option.map_some, cstr_eq_self htext]
  · congr 1
    rw [Bool.eq_iff_iff, decide_eq_true_iff]
    exact hfollows.tracks

/-- The engine is upgraded between the first two statements. -/
theorem carries_runs_upgrade :
    ∃ t d, Runs (connectAndRun none none [execText "SELECT 1", execText "SELECT 2",
        execText "SELECT 3"] allocDbc) t d ∧
      ∀ t₁ p reply t₂, t = t₁ ++ (.post p, reply) :: t₂ →
        p.carriedSession = currentSession t₁ ∧
        p.carriesRequire = ((currentSession t₁).isSome && t₁.any reports) := by
  have h := runs_of_play (connectAndRun none none
      [execText "SELECT 1", execText "SELECT 2", execText "SELECT 3"] allocDbc)
    [.answered 200 [], .answered 200 (lit "\x7b\"success\":true,\"sessionId\":\"s1\"\x7d"),
      answered "s1" false, answered "s1" false] rfl
  exact ⟨_, _, h, carries_runs h⟩

/-! ## Giving up a session -/

/-- The session the driver is on after an exchange of an execution, by what it does next: the POST it
goes on with, or the connection it leaves. -/
def sessionAfter (later : Trace) (d : Dbc) : Option Bytes :=
  match later with
  | (.post q, _) :: _ => q.dbc.sessionId
  | _ => d.sessionId

/-- The answer to a POST makes the driver drop its session, which is also what sends a statement
again to a fresh one. -/
def GivesUp (p : Post) (later : Trace) (d : Dbc) : Prop :=
  p.dbc.sessionId.isSome = true ∧ sessionAfter later d = none

/-- An HTTP 404 that can be read, is no success and names no session. -/
def NotFound (reply : HttpReply) : Prop :=
  ∃ body root, reply = .answered 404 body ∧ flJsonParse (cstr body) = some root ∧
    success root = false ∧ namedSession root = none

theorem losesSession_iff {p : Post} {reply : HttpReply} :
    losesSession p reply = true ↔ p.dbc.sessionId.isSome = true ∧ NotFound reply := by
  cases reply with
  | failed message =>
    refine ⟨fun h => Bool.noConfusion h, ?_⟩
    rintro ⟨-, _, _, h, -⟩
    cases h
  | answered status body =>
    cases hparse : flJsonParse (cstr body) with
    | none =>
      simp only [losesSession, hparse, Option.any_none]
      refine ⟨fun h => Bool.noConfusion h, ?_⟩
      rintro ⟨-, _, root, h, hroot, -⟩
      cases h
      rw [hparse] at hroot
      cases hroot
    | some root =>
      simp only [losesSession, hparse, Option.any_some]
      rw [refusesSession_iff]
      constructor
      · rintro ⟨hsent, rfl, hfails, hunnamed⟩
        exact ⟨hsent, body, root, rfl, hparse, hfails, hunnamed⟩
      · rintro ⟨hsent, body', root', heq, hroot, hfails, hunnamed⟩
        cases heq
        rw [hparse] at hroot
        cases hroot
        exact ⟨hsent, rfl, hfails, hunnamed⟩

/-- A session that is not lost is kept, or replaced by the one the answer names. -/
theorem followSession_eq_none_iff {session : Option Bytes} {p : Post} {reply : HttpReply}
    (hsession : session.isSome = true) :
    followSession session (.post p, reply) = none ↔ losesSession p reply = true := by
  obtain ⟨id, rfl⟩ := Option.isSome_iff_exists.1 hsession
  cases hloses : losesSession p reply with
  | true => simp only [followSession, answerTo_of_losesSession hloses, hloses, if_true]
  | false =>
    cases hans : answerTo p reply with
    | none => simp [followSession, hans, hloses]
    | some root => cases hnamed : namedSession root <;> simp [followSession, hans, hnamed]

/-- What the driver does next follows the answers. -/
theorem sessionAfter_eq {dbc : Dbc} {sql : Bytes} {count : ℤ} {flags : ExecFlags} {t : Trace}
    {a : Result × Dbc} (h : Runs (flProtoExecuteAs dbc sql count flags) t a) {t₁ t₂ : Trace}
    {p : Post} {reply : HttpReply} (ht : t = t₁ ++ (.post p, reply) :: t₂) :
    sessionAfter t₂ a.2 = followSession p.dbc.sessionId (.post p, reply) := by
  let start : Told := ⟨dbc.sessionId, decide (dbc.tracksSessions = 1)⟩
  have hstart : Follows dbc start := ⟨rfl, decide_eq_true_iff.symm⟩
  obtain ⟨hallow, hpost⟩ := (holds_follows False dbc start hstart sql count flags).runs h
    (admits_toldMonitor False start t)
  have hthis : Follows p.dbc ((toldMonitor False).after start t₁) := hallow t₁ (.post p) reply t₂ ht
  have hsplit : t = (t₁ ++ [(.post p, reply)]) ++ t₂ := by rw [ht, List.append_assoc]; rfl
  have hsession : ((toldMonitor False).after start (t₁ ++ [(.post p, reply)])).session =
      followSession p.dbc.sessionId (.post p, reply) := by
    rw [Monitor.after_append, hthis.session]
    rfl
  cases t₂ with
  | nil =>
    rw [List.append_nil] at hsplit
    rw [← hsession, ← hsplit]
    exact hpost.session
  | cons e t₂ =>
    obtain ⟨q, r⟩ := e
    have hnext := hallow _ q r t₂ hsplit
    rw [← hsession]
    cases q with
    | post q => exact hnext.session
    | get d path timeout => exact absurd hnext id
    | delete d path timeout => exact absurd hnext id

/-- An answer in an execution makes the driver give up a session it did not require exactly if it is
a bare 404 to a POST that names a session, and the engine is not known to report new ones. -/
theorem givesUp_requires_iff {dbc : Dbc} {sql : Bytes} {count : ℤ} {flags : ExecFlags} {t : Trace}
    {a : Result × Dbc} (h : Runs (flProtoExecuteAs dbc sql count flags) t a) {t₁ t₂ : Trace}
    {p : Post} {reply : HttpReply} (ht : t = t₁ ++ (.post p, reply) :: t₂) :
    (GivesUp p t₂ a.2 → p.carriesRequire = true) ↔
      p.dbc.sessionId = none ∨ p.dbc.tracksSessions = 1 ∨ ¬NotFound reply := by
  unfold GivesUp
  rw [sessionAfter_eq h ht, carriesRequire_eq]
  cases hid : p.dbc.sessionId with
  | none => exact iff_of_true (fun hgives => by cases hgives.1) (Or.inl rfl)
  | some id =>
    rw [followSession_eq_none_iff rfl, losesSession_iff, hid]
    simp only [Option.isSome_some, true_and, Bool.true_and, decide_eq_true_eq, reduceCtorEq,
      false_or]
    constructor
    · intro himp
      by_cases hfound : NotFound reply
      · exact Or.inl (himp hfound)
      · exact Or.inr hfound
    · rintro (htracks | hfound) hnot
      · exact htracks
      · exact absurd hnot hfound

/-- A 404 as a proxy may answer it, or an engine. -/
def bare404 : HttpReply := .answered 404 (lit "\x7b\"success\":false\x7d")

/-- A session that was required. -/
theorem givesUp_requires_iff_required : ∃ t a t₁ p reply t₂,
    Runs (flProtoExecuteCounted { allocDbc with sessionId := some (lit "s1"), tracksSessions := 1 }
      (lit "SELECT 1") (-1)) t a ∧ t = t₁ ++ (.post p, reply) :: t₂ ∧
    ((GivesUp p t₂ a.2 → p.carriesRequire = true) ↔
      p.dbc.sessionId = none ∨ p.dbc.tracksSessions = 1 ∨ ¬NotFound reply) := by
  have h := runs_of_play
    (flProtoExecuteCounted { allocDbc with sessionId := some (lit "s1"), tracksSessions := 1 }
      (lit "SELECT 1") (-1)) [bare404, answered "s2" true] rfl
  exact ⟨_, _, [], _, bare404, _, h, rfl, givesUp_requires_iff h (List.nil_append _).symm⟩

/-- A connection to an engine that never said whether a session is new. -/
def olderEngineDbc : Dbc :=
  { allocDbc with
    connected := true
    host := some (lit "localhost")
    sessionId := some (lit "s1")
    tracksSessions := 0 }

/-- A 404 costs such a connection its session. -/
theorem givesUp_unrequired : ∃ t,
    Runs (connectAndRun none none [execText "SELECT 1"] allocDbc) t olderEngineDbc ∧
    ∃ t' a t₁ p reply t₂, Runs (flProtoExecuteCounted olderEngineDbc (lit "SELECT 2") (-1)) t' a ∧
      t' = t₁ ++ (.post p, reply) :: t₂ ∧ GivesUp p t₂ a.2 ∧ p.carriesRequire = false := by
  have hconnect : ∃ t, Runs (connectAndRun none none [execText "SELECT 1"] allocDbc) t olderEngineDbc :=
    ⟨_, runs_of_play _ [.answered 200 [],
      .answered 200 (lit "\x7b\"success\":true,\"sessionId\":\"s1\"\x7d")] rfl⟩
  obtain ⟨t, hconnect⟩ := hconnect
  have h := runs_of_play (flProtoExecuteCounted olderEngineDbc (lit "SELECT 2") (-1))
    [bare404, .answered 200 (lit "\x7b\"success\":true,\"sessionId\":\"s2\"\x7d")] rfl
  refine ⟨t, hconnect, _, _, [], _, bare404, _, h, rfl, ⟨rfl, rfl⟩, ?_⟩
  rw [carriesRequire_eq]
  rfl

end FrostlakeOdbc
