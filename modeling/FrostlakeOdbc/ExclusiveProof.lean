import FrostlakeOdbc.Lib.Interleave
import FrostlakeOdbc.ReleaseProof

/-!
# Connections at work at once

Any number of connections share an engine, and their requests are answered in any order. If the engine
starts a fresh session wherever it starts one, no two connections ever hold the same session, and every
request names just the session its own connection holds (`sessions_exclusive`).
-/

namespace FrostlakeOdbc

open CString JsonText Exchange Client

/-- A closed connection handle, and what is done with it from there. -/
structure Lifetime where
  dbc : Dbc
  closed : dbc.connected = false
  database : Option Bytes
  schema : Option Bytes
  calls : List ConnectionCall

def Lifetime.program (l : Lifetime) : Call Dbc := connectAndRun l.database l.schema l.calls l.dbc

/-- The session an answer tells of, if it is taken in. -/
def toldBy : Request → HttpReply → Option Bytes
  | .post p, reply => (answerTo p reply).bind namedSession
  | _, _ => none

variable {ι : Type} [DecidableEq ι] {t : List (ι × Request × HttpReply)}

/-- An engine that starts fresh sessions: a request that names none is answered in a session that the
engine holds for no connection. -/
def StartsFresh (t : List (ι × Request × HttpReply)) : Prop :=
  ∀ t₁ i p reply t₂, t = t₁ ++ (i, .post p, reply) :: t₂ → p.dbc.sessionId = none →
    ∀ id, toldBy (.post p) reply = some id → ∀ j, id ∉ sessionsLeft (own j t₁)

/-! ## One connection -/

theorem subsingleton_requestSessions (q : Request) : (requestSessions q).Subsingleton := by
  cases q with
  | post p => exact fun _ ha _ hb => Option.some.inj (ha.symm.trans hb)
  | delete dbc path timeout =>
    rintro a ⟨segment, hpath, ha⟩ b ⟨segment', hpath', hb⟩
    obtain rfl := List.append_cancel_left (hpath.symm.trans hpath')
    exact Option.some.inj (ha.1.symm.trans hb.1)
  | get dbc path timeout => exact Set.subsingleton_empty

theorem Lifetime.holds (l : Lifetime) : sessionMonitor.Holds l.program Kept ∅ :=
  holds_connectAndRun_kept l.database l.schema l.calls l.closed

/-- Wherever a connection is stopped, it holds at most one session. -/
theorem subsingleton_sessionsLeft (l : Lifetime) {s : Trace} (hbegins : l.program.Begins s)
    (hreports : ∀ e ∈ s, ReportsSession e.1 e.2) : (sessionsLeft s).Subsingleton := by
  rcases l.holds.begins hbegins (Monitor.admits_of_forall (fun _ => hreports) ∅) with
    ⟨d, hkept⟩ | ⟨q, hallowed⟩
  · rw [sessionsLeft, hkept.sessions]
    rintro a ⟨-, ha⟩ b ⟨-, hb⟩
    exact Option.some.inj (ha.symm.trans hb)
  · rw [sessionsLeft, ← hallowed.names]
    exact subsingleton_requestSessions q

/-- What a request leaves a connection with it held before, or the request named no session and the
answer told of a new one. -/
theorem mem_sessionsAfter {sessions : Set Bytes} {q : Request} {reply : HttpReply}
    (hq : InSession sessions q) (hreports : ReportsSession q reply) {id : Bytes}
    (hid : id ∈ sessionsAfter sessions q reply) :
    id ∈ sessions ∨ ∃ p, q = .post p ∧ p.dbc.sessionId = none ∧ toldBy q reply = some id := by
  cases q with
  | delete dbc path timeout => exact .inl hid.1
  | get dbc path timeout => exact .inl hid
  | post p =>
    cases hloses : losesSession p reply with
    | true =>
      have hkept : sessionsAfter sessions (.post p) reply = _ := sessionsAfter_lost hloses
      rw [hkept] at hid
      exact .inl hid.1
    | false =>
      have hkept : sessionsAfter sessions (.post p) reply = _ := sessionsAfter_kept hloses
      rw [hkept] at hid
      rcases hid with hheld | htold
      · exact .inl hheld
      · cases hsession : p.dbc.sessionId with
        | none => exact .inr ⟨p, rfl, hsession, htold⟩
        | some held =>
          -- the session was required, so the answer names it
          obtain ⟨root, hroot, hnamed⟩ := Option.bind_eq_some_iff.1 htold
          have htracks := hq.requires p rfl (by rw [hsession]; rfl)
          obtain rfl := (hreports root hroot id hnamed).2 held hsession htracks
          rw [← hq.names]
          exact .inl hsession

/-! ## Every order of answers -/

section

variable (lives : ι → Lifetime) (hbegins : ∀ i, (lives i).program.Begins (own i t))
  (hreports : ∀ e ∈ t, ReportsSession e.2.1 e.2.2)

include hbegins hreports

theorem inSession_of_step {t₁ t₂ : List (ι × Request × HttpReply)} {i : ι} {q : Request}
    {reply : HttpReply} (ht : t = t₁ ++ (i, q, reply) :: t₂) :
    InSession (sessionsLeft (own i t₁)) q := by
  have hown : own i t = (own i t₁ ++ [(q, reply)]) ++ own i t₂ := by
    rw [ht, own_append, own_cons_self, List.append_cons]
  have hstep := hbegins i
  rw [hown] at hstep
  apply (lives i).holds.allows_of_begins hstep.of_append
  apply Monitor.admits_of_forall fun _ e he => ?_
  apply hreports (i, e)
  rw [ht]
  exact List.mem_append_left _ (mem_of_mem_own he)

theorem pairwise_disjoint_sessionsLeft (hfresh : StartsFresh t) :
    Pairwise fun i j => Disjoint (sessionsLeft (own i t)) (sessionsLeft (own j t)) := by
  apply pairwise_disjoint_after
  intro t₁ i q reply t₂ ht id hid
  have hallowed := inSession_of_step lives hbegins hreports ht
  have hreply : ReportsSession q reply := hreports (i, q, reply) (by simp [ht])
  rcases mem_sessionsAfter hallowed hreply hid with hheld | ⟨p, rfl, hnone, htold⟩
  · exact .inl hheld
  · exact .inr (hfresh t₁ i p reply t₂ ht hnone id htold)

end

theorem StartsFresh.of_append {t₁ t₂ : List (ι × Request × HttpReply)}
    (h : StartsFresh (t₁ ++ t₂)) : StartsFresh t₁ :=
  fun s₁ i p reply s₂ hs => h s₁ i p reply (s₂ ++ t₂) (by rw [hs]; simp)

/-- **No two connections share a session.** Whatever connections are at work on an engine that reports
its sessions and starts fresh ones, and in whatever order the answers reach them: each holds at most
one session, no two hold the same, and each request names just what its connection holds, so none of
another's. -/
theorem sessions_exclusive (lives : ι → Lifetime) (answers : List (ι × HttpReply))
    (ht : t = schedule (fun i => (lives i).program) answers)
    (hreports : ∀ e ∈ t, ReportsSession e.2.1 e.2.2) (hfresh : StartsFresh t) :
    (∀ i, (sessionsLeft (own i t)).Subsingleton) ∧
    (Pairwise fun i j => Disjoint (sessionsLeft (own i t)) (sessionsLeft (own j t))) ∧
    ∀ t₁ i q reply t₂, t = t₁ ++ (i, q, reply) :: t₂ →
      requestSessions q = sessionsLeft (own i t₁) ∧
      ∀ j ≠ i, Disjoint (requestSessions q) (sessionsLeft (own j t₁)) := by
  have hbegins : ∀ i, (lives i).program.Begins (own i t) := by
    intro i
    rw [ht]
    exact begins_own_schedule (fun i => (lives i).program) answers i
  refine ⟨fun i => ?_, pairwise_disjoint_sessionsLeft lives hbegins hreports hfresh, ?_⟩
  · exact subsingleton_sessionsLeft (lives i) (hbegins i) fun e he =>
      hreports (i, e) (mem_of_mem_own he)
  · intro t₁ i q reply t₂ hsplit
    have hallowed := inSession_of_step lives hbegins hreports hsplit
    refine ⟨hallowed.names, fun j hj => ?_⟩
    rw [hallowed.names]
    rw [hsplit] at hbegins hreports hfresh
    apply pairwise_disjoint_sessionsLeft lives (t := t₁) (fun k => ?_) (fun e he => ?_)
      hfresh.of_append hj.symm
    · have hown := hbegins k
      rw [own_append] at hown
      exact hown.of_append
    · exact hreports e (List.mem_append_left _ he)

/-! ## Two connections -/

/-- What is left of an exchange some answer told of. -/
theorem exists_toldBy {s : Trace} {id : Bytes} (h : id ∈ sessionsLeft s) :
    ∃ e ∈ s, toldBy e.1 e.2 = some id := by
  induction s using List.reverseRecOn with
  | nil => exact False.elim h
  | append_singleton s e ih =>
    rw [sessionsLeft, sessionMonitor.after_append] at h
    have hstep : id ∈ sessionsLeft s ∨ toldBy e.1 e.2 = some id := by
      obtain ⟨q, reply⟩ := e
      cases q with
      | delete dbc path timeout => exact .inl h.1
      | get dbc path timeout => exact .inl h
      | post p =>
        change id ∈ sessionsAfter (sessionsLeft s) (.post p) reply at h
        unfold sessionsAfter at h
        dsimp only at h
        split at h
        · exact .inl h.1
        · exact h
    rcases hstep with hheld | htold
    · obtain ⟨e', he', htold⟩ := ih hheld
      exact ⟨e', List.mem_append_left _ he', htold⟩
    · exact ⟨e, List.mem_append_right _ (List.mem_singleton_self e), htold⟩

/-- The session a request without one is answered in. -/
def startedBy : Request → HttpReply → Option Bytes
  | .post p, reply => if p.dbc.sessionId = none then toldBy (.post p) reply else none
  | _, _ => none

theorem startsFresh_of_pairwise (h : t.Pairwise fun e e' =>
    ∀ id ∈ startedBy e'.2.1 e'.2.2, toldBy e.2.1 e.2.2 ≠ some id) : StartsFresh t := by
  rintro t₁ i p reply t₂ rfl hnone id htold j hmem
  obtain ⟨e, he, htold'⟩ := exists_toldBy hmem
  have hapart := (List.pairwise_append.1 h).2.2 (j, e) (mem_of_mem_own he) _ List.mem_cons_self
  refine hapart id ?_ htold'
  show (if p.dbc.sessionId = none then _ else _) = some id
  rwa [if_pos hnone]

/-- A connection that runs a statement on the database `DEMO` and is closed. -/
def demoLife : Lifetime where
  dbc := allocDbc
  closed := rfl
  database := some (lit "DEMO")
  schema := none
  calls := [execText "SELECT 1", .disconnect]

/-- Two connections take turns; the second is still open at the end. -/
def demoTurns : List (Bool × HttpReply) :=
  [(false, .answered 200 []), (true, .answered 200 []), (false, answered "s1" true),
    (true, answered "s2" true), (true, answered "s2" false), (false, answered "s1" false),
    (false, .answered 200 [])]

theorem sessions_exclusive_demo :
    ((schedule (fun _ => demoLife.program) demoTurns).any fun e =>
      e.1 && decide (toldBy e.2.1 e.2.2 = some (lit "s2"))) = true ∧
    Disjoint (sessionsLeft (own false (schedule (fun _ => demoLife.program) demoTurns)))
      (sessionsLeft (own true (schedule (fun _ => demoLife.program) demoTurns))) := by
  refine ⟨by decide +kernel, ?_⟩
  exact (sessions_exclusive (fun _ => demoLife) demoTurns rfl (by decide +kernel)
    (startsFresh_of_pairwise (by decide +kernel))).2.1 Bool.false_ne_true

end FrostlakeOdbc
