import FrostlakeOdbc.Connect
import FrostlakeOdbc.NotingProof

/-!
# What ran in a session

The history of a connection, seen session by session: the statements that were answered with success
in a session since it was started.
-/

namespace FrostlakeOdbc

open CString JsonText Exchange Client

/-- Whether the session an answer names starts with it: the answer says so, or it names another
session than the one that was sent. -/
def starts (p : Post) (root : Value) : Bool :=
  newSession root = some true || namedSession root ≠ p.dbc.sessionId

/-- An exchange adds to what ran in the session `x` if the answer names `x`. -/
def addExchange (x : Bytes) (ran : List Post) : Request × HttpReply → List Post
  | (.post p, reply) =>
      match answerTo p reply with
      | some root =>
          if namedSession root = some x then
            (if starts p root then [] else ran) ++ (if success root then [p] else [])
          else ran
      | none => ran
  | _ => ran

/-- The POSTs that were answered with success in the session `x` since it started, in order. -/
def inSession (x : Bytes) (t : Trace) : List Post := t.foldl (addExchange x) []

/-- A statement of the application, as opposed to one of the driver's own. -/
def Post.isApplication (p : Post) : Bool :=
  match p.origin with
  | .statement flags => flags.tracked
  | .scope _ => false

theorem inSession_append (x : Bytes) (t : Trace) (e : Request × HttpReply) :
    inSession x (t ++ [e]) = addExchange x (inSession x t) e := by
  rw [inSession, List.foldl_append]
  rfl

section

variable {x : Bytes} {t : Trace} {p : Post} {reply : HttpReply} {root : Value}

theorem inSession_of_none (h : answerTo p reply = none) :
    inSession x (t ++ [(.post p, reply)]) = inSession x t := by
  rw [inSession_append, addExchange, h]

theorem inSession_of_other (h : answerTo p reply = some root) (hx : namedSession root ≠ some x) :
    inSession x (t ++ [(.post p, reply)]) = inSession x t := by
  rw [inSession_append, addExchange, h]
  exact if_neg hx

theorem inSession_of_named (h : answerTo p reply = some root) (hx : namedSession root = some x) :
    inSession x (t ++ [(.post p, reply)]) =
      (if starts p root then [] else inSession x t) ++ (if success root then [p] else []) := by
  rw [inSession_append, addExchange, h]
  exact if_pos hx

/-- Whatever ran in the session an answer leaves the connection on ran there before, or is the
statement that was answered. -/
theorem mem_inSession {q : Post} (h : answerTo p reply = some root)
    (hx : (p.absorbed root).sessionId = some x) (hq : q ∈ inSession x (t ++ [(.post p, reply)])) :
    (p.dbc.sessionId = some x ∧ starts p root = false ∧ q ∈ inSession x t) ∨
    (namedSession root = none ∧ p.dbc.sessionId = some x ∧ q ∈ inSession x t) ∨
    (success root = true ∧ q = p) := by
  rw [Post.absorbed, sessionId_absorbSession] at hx
  cases hn : namedSession root with
  | none =>
    rw [hn, Option.none_or] at hx
    have hother : namedSession root ≠ some x := by simp [hn]
    rw [inSession_of_other h hother] at hq
    exact Or.inr (Or.inl ⟨rfl, hx, hq⟩)
  | some y =>
    rw [hn, Option.some_or] at hx
    cases hx
    rw [inSession_of_named h hn] at hq
    rcases List.mem_append.1 hq with hq | hq
    · cases hs : starts p root
      · rw [hs] at hq
        refine Or.inl ⟨?_, rfl, hq⟩
        simp only [starts, Bool.or_eq_false_iff, decide_eq_false_iff_not, not_not] at hs
        rw [← hs.2, hn]
      · rw [hs] at hq
        exact absurd hq (List.not_mem_nil)
    · cases hs : success root
      · rw [hs] at hq
        exact absurd hq (List.not_mem_nil)
      · rw [hs] at hq
        exact Or.inr (Or.inr ⟨rfl, List.mem_singleton.1 hq⟩)

end

/-! ## Concrete calls and answers -/

/-- `SQLExecDirect` of a text. -/
def execText (sql : String) : ConnectionCall := .execDirect freshStmt (lit sql) sqlNts

/-- An answer that names a session, and says whether it was just started. -/
def answered (session : String) (new : Bool) : HttpReply :=
  .answered 200 (lit "\x7b\"success\":true,\"sessionId\":\"" ++ lit session ++
    lit "\",\"newSession\":" ++ (if new then lit "true" else lit "false") ++ lit "\x7d")

end FrostlakeOdbc
