import Mathlib.Data.List.Forall2
import FrostlakeOdbc.Proto

/-!
# The runs of a call

What a run of each function of the protocol can look like: which requests it exchanges, and what it
hands back. None of them changes the connection's settings, only what it knows of its session.
-/

namespace FrostlakeOdbc

open CString JsonText Exchange Client

/-- The exchanges of a run. -/
abbrev Trace := List (Request × HttpReply)

/-! ## Settings -/

/-- The connection without its session: what no execution changes. -/
def Dbc.settings (dbc : Dbc) : Dbc :=
  { dbc with
    sessionId := none
    database := none
    schema := none
    tracksSessions := 0
    sessionDirty := false
    inTransaction := false
    scopePending := false }

@[simp] theorem settings_forgetSession (dbc : Dbc) : (forgetSession dbc).settings = dbc.settings := rfl

@[simp] theorem settings_loseSession (dbc : Dbc) :
    (loseSession dbc).2.settings = dbc.settings := by
  unfold loseSession
  split <;> rfl

@[simp] theorem settings_absorbSession (dbc : Dbc) (root : Value) (sent : Bool) :
    (absorbSession dbc root sent).settings = dbc.settings := by
  unfold absorbSession
  split
  · rfl
  · split
    · dsimp only
      split <;> rfl
    · dsimp only
      split <;> rfl

@[simp] theorem settings_readReply (dbc : Dbc) (reply : HttpReply) :
    (readReply dbc reply).2.settings = dbc.settings := by
  unfold readReply
  split
  · rfl
  · split
    · rfl
    · dsimp only
      split
      · rfl
      · exact settings_absorbSession dbc _ _

theorem exists_noteStatement (dbc : Dbc) (s : Statement) :
    ∃ dirty open', noteStatement dbc s =
      { dbc with sessionDirty := dirty, inTransaction := open' } := by
  unfold noteStatement
  dsimp only
  split
  · exact ⟨dbc.sessionDirty, dbc.inTransaction, rfl⟩
  · split <;> split_ifs <;> exact ⟨_, _, rfl⟩

/-- Noting a request changes only what is known of the session. -/
theorem flSessionNote_eq (dbc : Dbc) (sql : Bytes) :
    ∃ dirty open', flSessionNote dbc sql =
      { dbc with sessionDirty := dirty, inTransaction := open' } := by
  unfold flSessionNote
  induction statements sql generalizing dbc with
  | nil => exact ⟨dbc.sessionDirty, dbc.inTransaction, rfl⟩
  | cons s l ih =>
    obtain ⟨_, _, hs⟩ := exists_noteStatement dbc s
    obtain ⟨dirty, open', h⟩ := ih (noteStatement dbc s)
    refine ⟨dirty, open', ?_⟩
    rw [List.foldl_cons, h, hs]

@[simp] theorem settings_flSessionNote (dbc : Dbc) (sql : Bytes) :
    (flSessionNote dbc sql).settings = dbc.settings := by
  obtain ⟨_, _, h⟩ := flSessionNote_eq dbc sql
  rw [h]
  rfl

theorem autocommit_of_settings {a b : Dbc} (h : a.settings = b.settings) :
    a.autocommit = b.autocommit := by
  show a.settings.autocommit = b.settings.autocommit
  rw [h]

theorem connected_of_settings {a b : Dbc} (h : a.settings = b.settings) :
    a.connected = b.connected := by
  show a.settings.connected = b.settings.connected
  rw [h]

theorem scopeStatements_congr {a b : Dbc} (h : a.settings = b.settings) :
    scopeStatements a = scopeStatements b := by
  show scopeStatements a.settings = scopeStatements b.settings
  rw [h]

theorem length_scopeStatements_le (dbc : Dbc) : (scopeStatements dbc).length ≤ 3 := by
  unfold scopeStatements
  split_ifs <;> simp

/-! ## What an answer does to the session -/

/-- Whether an answer says that its session was just started, in place of the session the request
named. -/
def replaces (sent : Bool) (root : Value) : Bool :=
  sent && (namedSession root).isSome && newSession root = some true

section

variable (dbc : Dbc) (root : Value) (sent : Bool)

theorem absorbSession_of_replaces (h : replaces sent root = true) :
    absorbSession dbc root sent =
      resetSessionState { dbc with sessionId := namedSession root, tracksSessions := 1 } := by
  simp only [replaces, Bool.and_eq_true, decide_eq_true_eq, Option.isSome_iff_exists] at h
  obtain ⟨⟨rfl, session, hnamed⟩, hnew⟩ := h
  simp only [absorbSession, hnamed, hnew]
  rfl

/-- Where no session is replaced, only the session id and what is known of the engine change. -/
theorem absorbSession_of_not_replaces (h : replaces sent root = false) :
    ∃ tracks, absorbSession dbc root sent =
      { dbc with
        sessionId := (namedSession root).or dbc.sessionId
        tracksSessions := tracks } := by
  unfold absorbSession
  cases hnamed : namedSession root with
  | none => exact ⟨dbc.tracksSessions, rfl⟩
  | some session =>
    cases hnew : newSession root with
    | none =>
      dsimp only
      split
      · exact ⟨0, rfl⟩
      · exact ⟨dbc.tracksSessions, rfl⟩
    | some started =>
      have hand : (sent && started) = false := by
        rw [replaces, hnamed, hnew] at h
        cases sent
        · rfl
        · cases started
          · rfl
          · cases h
      refine ⟨1, ?_⟩
      dsimp only
      rw [hand, if_neg (by decide)]
      rfl

theorem sessionId_absorbSession :
    (absorbSession dbc root sent).sessionId = (namedSession root).or dbc.sessionId := by
  cases h : replaces sent root
  · obtain ⟨tracks, heq⟩ := absorbSession_of_not_replaces dbc root sent h
    rw [heq]
  · rw [absorbSession_of_replaces dbc root sent h]
    simp only [replaces, Bool.and_eq_true] at h
    obtain ⟨session, hnamed⟩ := Option.isSome_iff_exists.1 h.1.2
    rw [hnamed]
    rfl

theorem sessionDirty_absorbSession :
    (absorbSession dbc root sent).sessionDirty = (dbc.sessionDirty && !replaces sent root) := by
  cases h : replaces sent root
  · obtain ⟨tracks, heq⟩ := absorbSession_of_not_replaces dbc root sent h
    rw [heq, Bool.not_false, Bool.and_true]
  · rw [absorbSession_of_replaces dbc root sent h, Bool.not_true, Bool.and_false]
    rfl

theorem inTransaction_absorbSession :
    (absorbSession dbc root sent).inTransaction = (dbc.inTransaction && !replaces sent root) := by
  cases h : replaces sent root
  · obtain ⟨tracks, heq⟩ := absorbSession_of_not_replaces dbc root sent h
    rw [heq, Bool.not_false, Bool.and_true]
  · rw [absorbSession_of_replaces dbc root sent h, Bool.not_true, Bool.and_false]
    rfl

theorem scopePending_absorbSession :
    (absorbSession dbc root sent).scopePending = (dbc.scopePending || replaces sent root) := by
  cases h : replaces sent root
  · obtain ⟨tracks, heq⟩ := absorbSession_of_not_replaces dbc root sent h
    rw [heq, Bool.or_false]
  · rw [absorbSession_of_replaces dbc root sent h, Bool.or_true]
    rfl

theorem database_absorbSession :
    (absorbSession dbc root sent).database =
      if replaces sent root then dbc.scopeDatabase else dbc.database := by
  cases h : replaces sent root
  · obtain ⟨tracks, heq⟩ := absorbSession_of_not_replaces dbc root sent h
    rw [heq]
    rfl
  · rw [absorbSession_of_replaces dbc root sent h]
    rfl

end

/-! ## One POST -/

/-- The answer refuses the session the request named as one the engine does not hold: it is a 404
that is not a success and names no session. -/
def SessionRefused (dbc : Dbc) (reply : HttpReply) : Prop :=
  dbc.sessionId.isSome = true ∧ ∃ body root, reply = .answered 404 body ∧
    flJsonParse (cstr body) = some root ∧
    flJsonGetBool (some root) (lit "success") false = false ∧ namedSession root = none

/-- The statement was answered without an error. -/
def Succeeded (reply : HttpReply) : Prop :=
  ∃ status body root, reply = .answered status body ∧ flJsonParse (cstr body) = some root ∧
    flJsonGetBool (some root) (lit "success") false = true

theorem decodeResponse_errorMessage (root : Value) :
    (decodeResponse root).errorMessage = none ↔
      flJsonGetBool (some root) (lit "success") false = true := by
  unfold decodeResponse
  cases h : flJsonGetBool (some root) (lit "success") false
  · simp only [Bool.not_false, if_true]
    simp
  · simp only [Bool.not_true, Bool.false_eq_true, if_false]

theorem refusesSession_iff {sent : Bool} {status : ℤ} {root : Value} :
    refusesSession sent status root = true ↔ sent = true ∧ status = 404 ∧
      flJsonGetBool (some root) (lit "success") false = false ∧ namedSession root = none := by
  simp only [refusesSession, Bool.and_eq_true, decide_eq_true_eq, Bool.not_eq_true', and_assoc,
    Option.isNone_iff_eq_none]

/-- The three things an answer can be. -/
theorem readReply_cases (dbc : Dbc) (reply : HttpReply) :
    (∃ e : TransportError, e.isLostSession = false ∧ readReply dbc reply = (.failed e, dbc)) ∨
    (SessionRefused dbc reply ∧ readReply dbc reply = (.gone, dbc)) ∨
    ∃ status body root, reply = .answered status body ∧ flJsonParse (cstr body) = some root ∧
      refusesSession dbc.sessionId.isSome status root = false ∧
      readReply dbc reply =
        (.answered (decodeResponse root), absorbSession dbc root dbc.sessionId.isSome) := by
  cases reply with
  | failed message => exact Or.inl ⟨.http message, rfl, rfl⟩
  | answered status body =>
    cases hp : flJsonParse (cstr body) with
    | none => exact Or.inl ⟨.unparseable status (cstr body), rfl, by simp only [readReply, hp]⟩
    | some root =>
      apply Or.inr
      by_cases hr : refusesSession dbc.sessionId.isSome status root = true
      · obtain ⟨hs, rfl, hf, hn⟩ := refusesSession_iff.1 hr
        exact Or.inl ⟨⟨hs, body, root, rfl, hp, hf, hn⟩, by simp only [readReply, hp, hr, if_true]⟩
      · have hr' : refusesSession dbc.sessionId.isSome status root = false := by simpa using hr
        refine Or.inr ⟨status, body, root, rfl, hp, hr', ?_⟩
        simp only [readReply, hp, hr', Bool.false_eq_true, if_false]

/-- Whether an answer says the statement was a success. -/
def success (root : Value) : Bool := flJsonGetBool (some root) (lit "success") false

/-- The answer to a POST, where it is one that is taken in: it can be read, and does not refuse the
session. -/
def answerTo (p : Post) : HttpReply → Option Value
  | .failed _ => none
  | .answered status body =>
      (flJsonParse (cstr body)).filter fun root => !refusesSession p.dbc.sessionId.isSome status root

theorem readReply_of_answerTo {p : Post} {reply : HttpReply} {root : Value}
    (h : answerTo p reply = some root) :
    readReply p.dbc reply =
      (.answered (decodeResponse root), absorbSession p.dbc root p.dbc.sessionId.isSome) := by
  cases reply with
  | failed message => cases h
  | answered status body =>
    obtain ⟨hparse, hkeeps⟩ := Option.filter_eq_some_iff.1 h
    rw [Bool.not_eq_true'] at hkeeps
    simp only [readReply, hparse, hkeeps]
    rfl

/-- Whether an answer refuses the session of a POST. -/
def losesSession (p : Post) : HttpReply → Bool
  | .failed _ => false
  | .answered status body =>
      (flJsonParse (cstr body)).any fun root => refusesSession p.dbc.sessionId.isSome status root

theorem answerTo_of_losesSession {p : Post} {reply : HttpReply} (h : losesSession p reply = true) :
    answerTo p reply = none := by
  cases reply with
  | failed message => cases h
  | answered status body =>
    cases hparse : flJsonParse (cstr body) with
    | none => simp only [answerTo, hparse, Option.filter_none]
    | some root =>
      simp only [losesSession, hparse, Option.any_some] at h
      simp only [answerTo, hparse, Option.filter_some, h]
      rfl

theorem readReply_of_losesSession {p : Post} {reply : HttpReply} (h : losesSession p reply = true) :
    readReply p.dbc reply = (.gone, p.dbc) := by
  cases reply with
  | failed message => cases h
  | answered status body =>
    cases hparse : flJsonParse (cstr body) with
    | none =>
      simp only [losesSession, hparse, Option.any_none] at h
      cases h
    | some root =>
      simp only [losesSession, hparse, Option.any_some] at h
      simp only [readReply, hparse, h, if_true]

/-- An answer that is not taken in and refuses no session is a failure of the transport. -/
theorem readReply_of_failed {p : Post} {reply : HttpReply} (hnone : answerTo p reply = none)
    (hkeeps : losesSession p reply = false) :
    ∃ e : TransportError, e.isLostSession = false ∧ readReply p.dbc reply = (.failed e, p.dbc) := by
  cases reply with
  | failed message => exact ⟨.http message, rfl, rfl⟩
  | answered status body =>
    cases hparse : flJsonParse (cstr body) with
    | none => exact ⟨.unparseable status (cstr body), rfl, by simp only [readReply, hparse]⟩
    | some root =>
      simp only [losesSession, hparse, Option.any_some] at hkeeps
      simp only [answerTo, hparse, Option.filter_some, hkeeps] at hnone
      cases hnone

theorem runs_post_iff {origin : Origin} {dbc : Dbc} {sql : Bytes} {count : ℤ} {t : Trace}
    {a : Outcome × Dbc} : Runs (post origin dbc sql count) t a ↔
      ∃ reply, t = [(.post ⟨origin, dbc, sql, count⟩, reply)] ∧ a = readReply dbc reply := by
  unfold post
  rw [runs_bind_iff]
  constructor
  · rintro ⟨t₁, t₂, reply, rfl, h₁, h₂⟩
    rw [runs_call_iff] at h₁
    obtain ⟨rfl, rfl⟩ := runs_pure_iff.1 h₂
    exact ⟨reply, by rw [h₁, List.append_nil], rfl⟩
  · rintro ⟨reply, rfl, rfl⟩
    exact ⟨_, [], reply, rfl, runs_call_iff.2 rfl, runs_pure_iff.2 ⟨rfl, rfl⟩⟩

/-- A run that starts with a POST. -/
theorem runs_post_bind_iff {α : Type} {origin : Origin} {dbc : Dbc} {sql : Bytes} {count : ℤ}
    {k : Outcome × Dbc → Call α} {t : Trace} {a : α} :
    Runs (post origin dbc sql count >>= k) t a ↔
      ∃ reply t', t = (.post ⟨origin, dbc, sql, count⟩, reply) :: t' ∧
        Runs (k (readReply dbc reply)) t' a := by
  rw [runs_bind_iff]
  constructor
  · rintro ⟨t₁, t₂, b, rfl, h₁, h₂⟩
    obtain ⟨reply, rfl, rfl⟩ := runs_post_iff.1 h₁
    exact ⟨reply, t₂, rfl, h₂⟩
  · rintro ⟨reply, t', rfl, h⟩
    exact ⟨_, t', _, rfl, runs_post_iff.2 ⟨reply, rfl, rfl⟩, h⟩

/-! ## The scope -/

/-- The entry is the statement `sql` of the scope, answered without an error. -/
def ScopeAnswered (sql : Bytes) (e : Request × HttpReply) : Prop :=
  ∃ p i, e.1 = .post p ∧ p.origin = .scope i ∧ p.sql = sql ∧ Succeeded e.2

/-- The entry is a statement of the scope. -/
def IsScope (e : Request × HttpReply) : Prop := ∃ p i, e.1 = .post p ∧ p.origin = .scope i

theorem ScopeAnswered.isScope {sql : Bytes} {e : Request × HttpReply} (h : ScopeAnswered sql e) :
    IsScope e := by
  obtain ⟨p, i, h₁, h₂, -⟩ := h
  exact ⟨p, i, h₁, h₂⟩

theorem isScope_of_forall₂ {stmts : List Bytes} {t : Trace} (h : List.Forall₂ ScopeAnswered stmts t) :
    ∀ e ∈ t, IsScope e := by
  induction h with
  | nil => simp
  | cons h _ ih =>
    intro e he
    rcases List.mem_cons.1 he with rfl | he
    · exact h.isScope
    · exact ih e he

/-- The runs of the loop of `apply_scope`: some statements are answered without an error, and then
all of them have been, or one is refused or not answered, or the session is gone and what the loop
does then is the rest of the run. -/
theorem runs_sendScope {whenGone : Dbc → Call (ScopeOutcome × Dbc)} {index : ℕ} {stmts : List Bytes}
    {dbc : Dbc} {t : Trace} {a : ScopeOutcome × Dbc}
    (h : Runs (sendScope whenGone index stmts dbc) t a) :
    (List.Forall₂ ScopeAnswered stmts t ∧ a.1 = none ∧ a.2.settings = dbc.settings) ∨
    ∃ done rest pass e, stmts = done ++ rest ∧ rest ≠ [] ∧ List.Forall₂ ScopeAnswered done pass ∧
      IsScope e ∧
      ((t = pass ++ [e] ∧ a.2.settings = dbc.settings ∧
          ∃ f, a.1 = some f ∧ ∀ e, f = .failed e → e.isLostSession = false) ∨
        ∃ t' d, t = pass ++ e :: t' ∧ d.settings = dbc.settings ∧ Runs (whenGone d) t' a) := by
  induction stmts generalizing index dbc t with
  | nil =>
    obtain ⟨rfl, rfl⟩ := runs_pure_iff.1 h
    exact Or.inl ⟨.nil, rfl, rfl⟩
  | cons sql rest ih =>
    obtain ⟨reply, t', rfl, hk⟩ := runs_post_bind_iff.1 h
    have hscope : IsScope (Request.post ⟨.scope index, dbc, sql, -1⟩, reply) := ⟨_, index, rfl, rfl⟩
    have hset := settings_readReply dbc reply
    rcases readReply_cases dbc reply with ⟨e, he, hr⟩ | ⟨-, hr⟩ | ⟨status, body, root, rfl, hp, -, hr⟩
    · rw [hr] at hk
      obtain ⟨rfl, rfl⟩ := runs_pure_iff.1 hk
      refine Or.inr ⟨[], sql :: rest, [], _, rfl, List.cons_ne_nil _ _, .nil, hscope,
        Or.inl ⟨rfl, rfl, _, rfl, ?_⟩⟩
      rintro e' he'
      cases he'
      exact he
    · rw [hr] at hk
      exact Or.inr ⟨[], sql :: rest, [], _, rfl, List.cons_ne_nil _ _, .nil, hscope,
        Or.inr ⟨t', dbc, rfl, rfl, hk⟩⟩
    · rw [hr] at hk hset
      dsimp only at hk hset
      cases hm : (decodeResponse root).errorMessage with
      | some message =>
        rw [hm] at hk
        obtain ⟨rfl, rfl⟩ := runs_pure_iff.1 hk
        refine Or.inr ⟨[], sql :: rest, [], _, rfl, List.cons_ne_nil _ _, .nil, hscope,
          Or.inl ⟨rfl, hset, _, rfl, ?_⟩⟩
        rintro e' he'
        cases he'
      | none =>
        rw [hm] at hk
        have hok : ScopeAnswered sql
            (Request.post ⟨.scope index, dbc, sql, -1⟩, .answered status body) :=
          ⟨_, index, rfl, rfl, rfl, status, body, root, rfl, hp,
            (decodeResponse_errorMessage root).1 hm⟩
        rcases ih hk with ⟨hpass, ha, hs⟩ | ⟨done, rest', pass, e, rfl, hne, hpass, he, hrest⟩
        · exact Or.inl ⟨.cons hok hpass, ha, hs.trans hset⟩
        · refine Or.inr ⟨sql :: done, rest', _ :: pass, e, rfl, hne, .cons hok hpass, he, ?_⟩
          rcases hrest with ⟨rfl, hs, hf⟩ | ⟨t'', d, rfl, hs, hrun⟩
          · exact Or.inl ⟨rfl, hs.trans hset, hf⟩
          · exact Or.inr ⟨t'', d, rfl, hs.trans hset, hrun⟩

/-- What a run that puts the statements `stmts` on the session does, in at most `n` requests. -/
structure PutsScope (stmts : List Bytes) (n : ℕ) (dbc : Dbc) (t : Trace) (a : ScopeOutcome × Dbc) :
    Prop where
  settings : a.2.settings = dbc.settings
  length_le : t.length ≤ n
  isScope : ∀ e ∈ t, IsScope e
  applied : a.1 = none → ∃ t₁ pass, t = t₁ ++ pass ∧ List.Forall₂ ScopeAnswered stmts pass

/-- The loop of `apply_scope` does what it says if what it does with a lost session does. -/
theorem putsScope_sendScope {whenGone : Dbc → Call (ScopeOutcome × Dbc)} {stmts : List Bytes} {n : ℕ}
    {dbc : Dbc} {index : ℕ} {t : Trace} {a : ScopeOutcome × Dbc}
    (hgone : ∀ d t a, Runs (whenGone d) t a → PutsScope stmts n d t a)
    (h : Runs (sendScope whenGone index stmts dbc) t a) :
    PutsScope stmts (stmts.length + n) dbc t a := by
  rcases runs_sendScope h with ⟨hpass, ha, hs⟩ | ⟨done, rest, pass, e, rfl, hne, hpass, he, hrest⟩
  · exact ⟨hs, by rw [← hpass.length_eq]; omega, isScope_of_forall₂ hpass, fun _ => ⟨[], t, rfl, hpass⟩⟩
  have hlen := hpass.length_eq
  have hpos := List.length_pos_iff.2 hne
  rcases hrest with ⟨rfl, hs, f, hf, -⟩ | ⟨t', d, rfl, hd, hrun⟩
  · refine ⟨hs, ?_, ?_, fun hnone => ?_⟩
    · simp only [List.length_append, List.length_singleton]
      omega
    · intro x hx
      rcases List.mem_append.1 hx with hx | hx
      · exact isScope_of_forall₂ hpass x hx
      · rwa [List.mem_singleton.1 hx]
    · rw [hf] at hnone
      cases hnone
  · have hg := hgone d t' a hrun
    refine ⟨hg.settings.trans hd, ?_, ?_, fun hnone => ?_⟩
    · have := hg.length_le
      simp only [List.length_append, List.length_cons]
      omega
    · intro x hx
      rcases List.mem_append.1 hx with hx | hx
      · exact isScope_of_forall₂ hpass x hx
      · rcases List.mem_cons.1 hx with rfl | hx
        · exact he
        · exact hg.isScope x hx
    · obtain ⟨t₁, pass', rfl, hpass'⟩ := hg.applied hnone
      exact ⟨pass ++ e :: t₁, pass', by simp, hpass'⟩

/-- The runs of `apply_scope`. -/
theorem putsScope_applyScope {dbc : Dbc} {t : Trace} {a : ScopeOutcome × Dbc}
    (h : Runs (applyScope dbc) t a) : PutsScope (scopeStatements dbc) 6 dbc t a := by
  obtain ⟨t₁, t₂, b, rfl, hsend, hend⟩ := runs_bind_iff.1 h
  obtain ⟨rfl, rfl⟩ := runs_pure_iff.1 hend
  have hlost : ∀ d t a, Runs (scopeLostAgain d) t a → PutsScope (scopeStatements dbc) 0 d t a := by
    intro d t a hrun
    obtain ⟨rfl, rfl⟩ := runs_pure_iff.1 hrun
    exact ⟨rfl, Nat.le_refl _, by simp, fun hnone => by cases hnone⟩
  have hrestart : ∀ d t a, Runs (restartScope (scopeStatements dbc) d) t a →
      PutsScope (scopeStatements dbc) (scopeStatements dbc).length d t a := by
    intro d t a hrun
    have hset := settings_loseSession d
    unfold restartScope at hrun
    split at hrun
    · next e d' hd =>
      rw [hd] at hset
      obtain ⟨rfl, rfl⟩ := runs_pure_iff.1 hrun
      exact ⟨hset, Nat.zero_le _, by simp, fun hnone => by cases hnone⟩
    · next d' hd =>
      rw [hd] at hset
      obtain ⟨hs, hl, hi, ha⟩ := putsScope_sendScope hlost hrun
      exact ⟨hs.trans hset, hl, hi, ha⟩
  obtain ⟨hs, hl, hi, ha⟩ := putsScope_sendScope hrestart hsend
  have hlen := length_scopeStatements_le dbc
  rw [List.append_nil]
  obtain ⟨_ | f, d⟩ := b
  · exact ⟨hs, by omega, hi, ha⟩
  · exact ⟨hs, by omega, hi, fun hnone => by cases hnone⟩

end FrostlakeOdbc
