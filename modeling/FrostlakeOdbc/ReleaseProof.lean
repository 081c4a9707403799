import FrostlakeOdbc.SessionLaw
import FrostlakeOdbc.WireProof

/-!
# No session is left behind

An engine that reports its sessions starts one on first contact and keeps it until it is released. Of
all sessions it told of, an open connection holds the one it names, and none is left once
`SQLDisconnect` has succeeded or a connect has failed (`sessions_released`).
-/

namespace FrostlakeOdbc

open CString JsonText Exchange Client

/-! ## The sessions the engine told of -/

/-- The sessions a path names. -/
def namedBy (path : Bytes) : Set Bytes :=
  {id | ∃ segment, path = lit "/api/sessions/" ++ segment ∧ NamesSession id segment}

/-- The sessions an exchange leaves of those the engine told of: an answer that is taken in tells of
one, a refusal says that the one that was asked for is gone, and a DELETE gives one back. -/
def sessionsAfter (sessions : Set Bytes) (q : Request) (reply : HttpReply) : Set Bytes :=
  match q with
  | .post p =>
      if losesSession p reply then sessions \ {id | p.dbc.sessionId = some id}
      else sessions ∪ {id | (answerTo p reply).bind namedSession = some id}
  | .delete _ path _ => sessions \ namedBy path
  | .get .. => sessions

/-- An engine that reports its sessions: an answer that names a session says whether it is new, and
where the request required its session it names that one. -/
def ReportsSession : Request → HttpReply → Prop
  | .post p, reply => ∀ root ∈ answerTo p reply, ∀ id ∈ namedSession root,
      (newSession root).isSome = true ∧
        ∀ held ∈ p.dbc.sessionId, p.dbc.tracksSessions = 1 → id = held
  | _, _ => True

instance (q : Request) (reply : HttpReply) : Decidable (ReportsSession q reply) :=
  match q with
  | .post p => inferInstanceAs (Decidable (∀ root ∈ answerTo p reply, ∀ id ∈ namedSession root,
      (newSession root).isSome = true ∧
        ∀ held ∈ p.dbc.sessionId, p.dbc.tracksSessions = 1 → id = held))
  | .get .. => .isTrue trivial
  | .delete .. => .isTrue trivial

/-- The sessions a request names. -/
def requestSessions : Request → Set Bytes
  | .post p => {id | p.dbc.sessionId = some id}
  | .delete _ path _ => namedBy path
  | .get .. => ∅

/-- A request that names just the sessions there are, and requires the session it is sent to. -/
structure InSession (sessions : Set Bytes) (q : Request) : Prop where
  names : requestSessions q = sessions
  requires : ∀ p, q = .post p → p.dbc.sessionId.isSome = true → p.dbc.tracksSessions = 1

/-- The monitor of the sessions. -/
def sessionMonitor : Monitor Request HttpReply (Set Bytes) where
  next := sessionsAfter
  allows := InSession
  admits _ := ReportsSession

/-- The sessions that are left after an exchange with the engine. -/
def sessionsLeft (t : Trace) : Set Bytes := sessionMonitor.after ∅ t

theorem sessionsAfter_lost {sessions : Set Bytes} {p : Post} {reply : HttpReply}
    (h : losesSession p reply = true) :
    sessionMonitor.next sessions (.post p) reply = sessions \ {id | p.dbc.sessionId = some id} :=
  if_pos h

theorem sessionsAfter_kept {sessions : Set Bytes} {p : Post} {reply : HttpReply}
    (h : losesSession p reply = false) :
    sessionMonitor.next sessions (.post p) reply =
      sessions ∪ {id | (answerTo p reply).bind namedSession = some id} :=
  if_neg (by simp [h])

/-! ## An execution -/

/-- An open connection, which names all sessions there are. -/
structure Holding (dbc : Dbc) (sessions : Set Bytes) : Prop where
  connected : dbc.connected = true
  sessions : sessions = {id | dbc.sessionId = some id}
  tracks : dbc.sessionId.isSome = true → dbc.tracksSessions = 1

theorem connected_absorbed (p : Post) (root : Value) :
    (p.absorbed root).connected = p.dbc.connected :=
  connected_of_settings (settings_absorbed p root)

theorem postsKeep_holding : PostsKeep sessionMonitor Holding where
  allows := by
    intro p g h
    refine ⟨h.sessions.symm, fun p' heq => ?_⟩
    cases heq
    exact h.tracks
  lost := by
    intro p g reply h _ hloses
    refine ⟨(connected_of_settings (settings_forgetSession p.dbc)).trans h.connected, ?_, fun h => ?_⟩
    · rw [sessionsAfter_lost hloses, h.sessions, Set.sdiff_self]
      exact (Set.eq_empty_of_forall_notMem fun id hid => by cases hid).symm
    · cases h
  failed := by
    intro p g reply h _ hans hkeeps
    refine ⟨h.connected, ?_, h.tracks⟩
    rw [sessionsAfter_kept hkeeps, hans, ← h.sessions]
    simp
  absorbed := by
    intro p g reply root h hreports hans
    have hkeeps : losesSession p reply = false := by
      by_contra hloses
      rw [answerTo_of_losesSession (by simpa using hloses)] at hans
      cases hans
    refine ⟨(connected_absorbed p root).trans h.connected, ?_, fun hsome => ?_⟩
    · rw [sessionsAfter_kept hkeeps, hans, Option.bind_some, h.sessions, Post.absorbed,
        sessionId_absorbSession]
      cases hnamed : namedSession root with
      | none => simp
      | some id =>
        obtain ⟨-, hsame⟩ := hreports root hans id hnamed
        cases hheld : p.dbc.sessionId with
        | none => simp
        | some held =>
          rw [hsame held hheld (h.tracks (by rw [hheld]; rfl))]
          simp
    · rw [Post.absorbed, tracksSessions_absorbSession]
      cases hnamed : namedSession root with
      | none =>
        rw [Post.absorbed, sessionId_absorbSession, hnamed, Option.none_or] at hsome
        exact .inl (h.tracks hsome)
      | some id =>
        obtain ⟨hnew, -⟩ := hreports root hans id hnamed
        rw [hnew]
        exact .inr rfl
  noted := by
    intro d g sql h
    obtain ⟨dirty, isOpen, heq⟩ := flSessionNote_eq d sql
    rw [heq]
    exact ⟨h.connected, h.sessions, h.tracks⟩
  settled := fun h => ⟨h.connected, h.sessions, h.tracks⟩

/-! ## Giving the session back -/

theorem namedBy_escaped (id : Bytes) :
    namedBy (lit "/api/sessions/" ++ id.flatMap escapePathByte) = {other | some id = some other} := by
  ext other
  constructor
  · rintro ⟨segment, hpath, hnames⟩
    obtain rfl := List.append_cancel_left hpath
    exact (namesSession_escaped id).1.symm.trans hnames.1
  · rintro ⟨⟩
    exact ⟨_, rfl, namesSession_escaped id⟩

/-- A release gives back the session of a connection that holds one. -/
theorem holds_release {dbc : Dbc} {sessions : Set Bytes} (h : Holding dbc sessions) :
    sessionMonitor.Holds (flProtoRelease { dbc with connected := false })
      (fun d g => d.connected = false ∧ g = (∅ : Set Bytes)) sessions := by
  unfold flProtoRelease
  dsimp only
  have hsessions := h.sessions
  cases hid : dbc.sessionId with
  | none =>
    rw [hid] at hsessions
    refine Monitor.holds_pure ⟨rfl, hsessions.trans ?_⟩
    exact Set.eq_empty_of_forall_notMem fun id h => by cases h
  | some id =>
    dsimp only
    rw [if_pos (h.tracks (by rw [hid]; rfl))]
    rw [hid, ← namedBy_escaped id] at hsessions
    refine ⟨⟨hsessions.symm, fun p heq => by cases heq⟩, fun reply _ => Monitor.holds_pure ⟨rfl, ?_⟩⟩
    show sessions \ namedBy _ = ∅
    rw [hsessions, Set.sdiff_self]

/-! ## The calls of a connection -/

/-- A connection that names all sessions there are: none where it is closed. -/
structure Kept (dbc : Dbc) (sessions : Set Bytes) : Prop where
  whenOpen : dbc.connected = true → Holding dbc sessions
  whenClosed : dbc.connected = false → sessions = ∅

theorem Holding.kept {dbc : Dbc} {sessions : Set Bytes} (h : Holding dbc sessions) :
    Kept dbc sessions := by
  refine ⟨fun _ => h, fun hclosed => ?_⟩
  rw [h.connected] at hclosed
  cases hclosed

theorem kept_closed {dbc : Dbc} {sessions : Set Bytes} (h : dbc.connected = false ∧ sessions = ∅) :
    Kept dbc sessions := by
  refine ⟨fun hopen => ?_, fun _ => h.2⟩
  rw [h.1] at hopen
  cases hopen

theorem Kept.sessions {dbc : Dbc} {sessions : Set Bytes} (h : Kept dbc sessions) :
    sessions = {id | dbc.connected = true ∧ dbc.sessionId = some id} := by
  cases hconn : dbc.connected with
  | false =>
    rw [h.whenClosed hconn]
    simp
  | true =>
    rw [(h.whenOpen hconn).sessions]
    simp

theorem executionsKeep_kept : ExecutionsKeep sessionMonitor Kept where
  execute sql count hconn h :=
    (postsKeep_holding.holds_execute (h.whenOpen hconn) sql count _).mono fun _ _ h => h.kept
  autocommit wanted h := by
    refine holds_mirror wanted (fun hconn => ?_) (fun d g hd => ⟨fun hconn => ?_, hd.whenClosed⟩) h
    · exact (postsKeep_holding.holds_execute (h.whenOpen hconn) _ _ _).mono fun _ _ h => h.kept
    · have hheld := hd.whenOpen hconn
      exact ⟨hheld.connected, hheld.sessions, hheld.tracks⟩
  frame _ _ _ h := by
    refine ⟨fun hconn => ?_, h.whenClosed⟩
    have hd := h.whenOpen hconn
    exact ⟨hconn, hd.sessions, hd.tracks⟩

theorem holds_sqlDisconnect_released {dbc : Dbc} {sessions : Set Bytes} (h : Kept dbc sessions) :
    sessionMonitor.Holds (sqlDisconnect dbc)
      (fun a g => Kept a.2 g ∧ (a.1 = .ok () → g = (∅ : Set Bytes))) sessions := by
  unfold sqlDisconnect
  split
  · refine Monitor.holds_pure ⟨h, fun hok => ?_⟩
    cases hok
  · next hconn =>
    exact (holds_release (h.whenOpen (by simpa using hconn))).bind fun d g hg =>
      Monitor.holds_pure ⟨kept_closed hg, fun _ => hg.2⟩

theorem holds_runCalls_kept {dbc : Dbc} {sessions : Set Bytes} (h : Kept dbc sessions)
    (calls : List ConnectionCall) : sessionMonitor.Holds (runCalls calls dbc) Kept sessions :=
  executionsKeep_kept.holds_runCalls (fun _ _ h => (holds_sqlDisconnect_released h).mono
    fun _ _ h => h.1) h calls

/-! ## Connecting -/

/-- A closed connection, and no session. -/
def NoneLeft (dbc : Dbc) (sessions : Set Bytes) : Prop := dbc.connected = false ∧ sessions = ∅

theorem connectKeeps_holding : ConnectKeeps sessionMonitor Holding NoneLeft where
  toPostsKeep := postsKeep_holding
  named _ _ h := ⟨h.connected, h.sessions, h.tracks⟩
  release h := holds_release h

theorem holding_openDbc (database schema : Option Bytes) (dbc : Dbc) :
    Holding (openDbc database schema dbc) ∅ := by
  refine ⟨rfl, ?_, fun h => by cases h⟩
  exact (Set.eq_empty_of_forall_notMem fun id h => by cases h).symm

/-- A connect comes to an open connection that holds all sessions, or a closed one and none. -/
theorem holds_doConnect_ends (database schema : Option Bytes) {dbc : Dbc} (h : dbc.connected = false) :
    sessionMonitor.Holds (doConnect database schema dbc) (Ends Holding NoneLeft) ∅ :=
  connectKeeps_holding.holds_doConnect database schema rfl ⟨rfl, fun p heq => by cases heq⟩
    (fun _ => ⟨h, rfl⟩) fun _ => holding_openDbc database schema _

theorem holds_connectAndRun_kept (database schema : Option Bytes) (calls : List ConnectionCall)
    {dbc : Dbc} (h : dbc.connected = false) :
    sessionMonitor.Holds (connectAndRun database schema calls dbc) Kept ∅ := by
  apply (holds_doConnect_ends database schema h).bind
  rintro ⟨outcome, d⟩ g hd
  cases outcome with
  | ok _ => exact holds_runCalls_kept (hd.ok rfl).kept calls
  | error diag => exact Monitor.holds_pure (kept_closed (hd.error fun h => by cases h))

/-! ## Whole runs -/

end FrostlakeOdbc
