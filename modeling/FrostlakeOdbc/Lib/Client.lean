import Mathlib.Logic.Basic
import Mathlib.Data.List.Basic

/-!
# Clients of a request/answer channel

A client asks one request at a time and goes on with whatever answer comes back, so a program of
type `Client Q R α` is the tree of everything it may do against any peer. Three readings of one
tree are developed here:

* `Runs p t a`: `p` exchanges exactly the requests and answers of `t` and returns `a`;
* `serve f p s`: `p` against the peer that answers with `f` and keeps the state `s`;
* `Monitor.Holds M p post g`: every request `p` makes is allowed by the monitor `M`, which watches
  the exchange and keeps a ghost state, and `post` holds when `p` returns.

`Monitor.Holds` is a weakest precondition: it has a rule for every construct of the monad, and
`Monitor.Holds.runs` turns it into a statement about every run.
-/

namespace Exchange

/-- A client program: finished, or asking `q` and going on with the answer. -/
inductive Client (Q R α : Type) : Type where
  | done (a : α) : Client Q R α
  | ask (q : Q) (k : R → Client Q R α) : Client Q R α

namespace Client

variable {Q R S α β γ : Type}

protected def bind : Client Q R α → (α → Client Q R β) → Client Q R β
  | done a, f => f a
  | ask q k, f => ask q fun r => (k r).bind f

instance : Monad (Client Q R) where
  pure := done
  bind := Client.bind

/-- Ask one request and return its answer. -/
def call (q : Q) : Client Q R R := ask q done

theorem bind_done (p : Client Q R α) : p.bind done = p := by
  induction p with
  | done a => rfl
  | ask q k ih => exact congrArg (ask q) (funext ih)

theorem bind_bind (p : Client Q R α) (f : α → Client Q R β) (g : β → Client Q R γ) :
    (p.bind f).bind g = p.bind fun a => (f a).bind g := by
  induction p with
  | done a => rfl
  | ask q k ih => exact congrArg (ask q) (funext ih)

instance : LawfulMonad (Client Q R) :=
  LawfulMonad.mk' (Client Q R) bind_done (fun _ _ => rfl) bind_bind

/-! ## Runs -/

/-- `Runs p t a`: against a peer that answers as `t` says, `p` asks the requests of `t` and
returns `a`. -/
inductive Runs : Client Q R α → List (Q × R) → α → Prop where
  | done (a : α) : Runs (done a) [] a
  | ask {q : Q} {k : R → Client Q R α} {r : R} {t : List (Q × R)} {a : α} (h : Runs (k r) t a) :
      Runs (ask q k) ((q, r) :: t) a

theorem runs_pure_iff {a b : α} {t : List (Q × R)} :
    Runs (pure a : Client Q R α) t b ↔ t = [] ∧ b = a := by
  constructor
  · intro h
    cases h
    exact ⟨rfl, rfl⟩
  · rintro ⟨rfl, rfl⟩
    exact .done _

theorem runs_ask_iff {q : Q} {k : R → Client Q R α} {t : List (Q × R)} {a : α} :
    Runs (ask q k) t a ↔ ∃ r t', t = (q, r) :: t' ∧ Runs (k r) t' a := by
  constructor
  · intro h
    cases h with
    | ask h => exact ⟨_, _, rfl, h⟩
  · rintro ⟨r, t', rfl, h⟩
    exact .ask h

theorem runs_call_iff {q : Q} {t : List (Q × R)} {r : R} :
    Runs (call q : Client Q R R) t r ↔ t = [(q, r)] := by
  rw [call, runs_ask_iff]
  constructor
  · rintro ⟨r', t', rfl, h⟩
    cases h
    rfl
  · rintro rfl
    exact ⟨r, [], rfl, .done r⟩

theorem runs_bind_iff {p : Client Q R α} {f : α → Client Q R β} {t : List (Q × R)} {b : β} :
    Runs (p >>= f) t b ↔ ∃ t₁ t₂ a, t = t₁ ++ t₂ ∧ Runs p t₁ a ∧ Runs (f a) t₂ b := by
  constructor
  · intro h
    induction p generalizing t with
    | done a => exact ⟨[], t, a, rfl, .done a, h⟩
    | ask q k ih =>
      obtain ⟨r, t', rfl, hr⟩ := runs_ask_iff.1 h
      obtain ⟨t₁, t₂, a, rfl, h₁, h₂⟩ := ih r hr
      exact ⟨(q, r) :: t₁, t₂, a, rfl, .ask h₁, h₂⟩
  · rintro ⟨t₁, t₂, a, rfl, h₁, h₂⟩
    induction h₁ with
    | done a => exact h₂
    | ask _ ih => exact .ask (ih h₂)

theorem runs_map_iff {f : α → β} {p : Client Q R α} {t : List (Q × R)} {b : β} :
    Runs (f <$> p) t b ↔ ∃ a, Runs p t a ∧ b = f a := by
  rw [map_eq_pure_bind, runs_bind_iff]
  constructor
  · rintro ⟨t₁, t₂, a, rfl, hp, hend⟩
    obtain ⟨rfl, rfl⟩ := runs_pure_iff.1 hend
    exact ⟨a, (List.append_nil t₁).symm ▸ hp, rfl⟩
  · rintro ⟨a, hp, rfl⟩
    exact ⟨t, [], a, (List.append_nil t).symm, hp, .done _⟩

theorem Runs.bind {p : Client Q R α} {f : α → Client Q R β} {t₁ t₂ : List (Q × R)} {a : α} {b : β}
    (h₁ : Runs p t₁ a) (h₂ : Runs (f a) t₂ b) : Runs (p >>= f) (t₁ ++ t₂) b :=
  runs_bind_iff.2 ⟨t₁, t₂, a, rfl, h₁, h₂⟩

/-- The answers settle the run. -/
theorem Runs.unique {p : Client Q R α} {t : List (Q × R)} {a b : α} (ha : Runs p t a)
    (hb : Runs p t b) : a = b := by
  induction ha with
  | done a =>
    cases hb
    rfl
  | ask _ ih =>
    cases hb with
    | ask h => exact ih h

/-! ## Scripted answers -/

/-- The run of `p` on the answers `rs`, if they are just as many as `p` asks for. -/
def play : Client Q R α → List R → Option (List (Q × R) × α)
  | done a, [] => some ([], a)
  | done _, _ :: _ => none
  | ask _ _, [] => none
  | ask q k, r :: rs => (play (k r) rs).map fun (t, a) => ((q, r) :: t, a)

theorem runs_of_play (p : Client Q R α) (rs : List R) {t : List (Q × R)} {a : α}
    (h : p.play rs = some (t, a)) : Runs p t a := by
  induction p generalizing rs t with
  | done b =>
    cases rs with
    | nil =>
      cases h
      exact .done _
    | cons r rs => cases h
  | ask q k ih =>
    cases rs with
    | nil => cases h
    | cons r rs =>
      obtain ⟨⟨t', a'⟩, ht, he⟩ := Option.map_eq_some_iff.1 h
      cases he
      exact .ask (ih r rs ht)

theorem answers_of_play (p : Client Q R α) (rs : List R) {t : List (Q × R)} {a : α}
    (h : p.play rs = some (t, a)) : t.map Prod.snd = rs := by
  induction p generalizing rs t with
  | done b =>
    cases rs with
    | nil =>
      cases h
      rfl
    | cons r rs => cases h
  | ask q k ih =>
    cases rs with
    | nil => cases h
    | cons r rs =>
      obtain ⟨⟨t', a'⟩, ht, he⟩ := Option.map_eq_some_iff.1 h
      cases he
      exact congrArg (r :: ·) (ih r rs ht)

/-! ## A peer with a state -/

/-- `p` against the peer `f`: what it returns, and the state the peer is left in. -/
def serve (f : S → Q → R × S) : Client Q R α → S → α × S
  | done a, s => (a, s)
  | ask q k, s => (k (f s q).1).serve f (f s q).2

variable (f : S → Q → R × S)

@[simp] theorem serve_pure (a : α) (s : S) : (pure a : Client Q R α).serve f s = (a, s) := rfl

@[simp] theorem serve_call (q : Q) (s : S) : (call q : Client Q R R).serve f s = f s q := rfl

@[simp] theorem serve_bind (p : Client Q R α) (g : α → Client Q R β) (s : S) :
    (p >>= g).serve f s = (g (p.serve f s).1).serve f (p.serve f s).2 := by
  induction p generalizing s with
  | done a => rfl
  | ask q k ih => exact ih _ _

/-- What a peer with a state does is one of the runs. -/
theorem runs_serve (p : Client Q R α) (s : S) : ∃ t, Runs p t (p.serve f s).1 := by
  induction p generalizing s with
  | done a => exact ⟨[], .done a⟩
  | ask q k ih =>
    obtain ⟨t, h⟩ := ih (f s q).1 (f s q).2
    exact ⟨_, .ask h⟩

/-! ## Two clients against the same answers -/

variable {Q' α' β' : Type}

/-- Given the same answers, the two clients ask requests that `W` relates, one for one, and return
results that `S` relates. -/
def Matches (W : Q → Q' → Prop) (S : α → α' → Prop) : Client Q R α → Client Q' R α' → Prop
  | done a, done a' => S a a'
  | ask q k, ask q' k' => W q q' ∧ ∀ r, Matches W S (k r) (k' r)
  | _, _ => False

section

variable {W : Q → Q' → Prop} {S : α → α' → Prop} {T : β → β' → Prop}

theorem matches_pure {a : α} {a' : α'} (h : S a a') :
    Matches W S (pure a : Client Q R α) (pure a' : Client Q' R α') := h

theorem matches_call {q : Q} {q' : Q'} (h : W q q') :
    Matches W Eq (call q : Client Q R R) (call q' : Client Q' R R) :=
  ⟨h, fun _ => rfl⟩

theorem Matches.bind {p : Client Q R α} {p' : Client Q' R α'} {f : α → Client Q R β}
    {f' : α' → Client Q' R β'} (h : Matches W S p p')
    (hf : ∀ a a', S a a' → Matches W T (f a) (f' a')) : Matches W T (p >>= f) (p' >>= f') := by
  induction p generalizing p' with
  | done a =>
    cases p' with
    | done a' => exact hf a a' h
    | ask q' k' => exact False.elim h
  | ask q k ih =>
    cases p' with
    | done a' => exact False.elim h
    | ask q' k' => exact ⟨h.1, fun r => ih r (h.2 r)⟩

/-- Against a peer that answers related requests alike, the results are related. -/
theorem Matches.serve {U : Type} {f : U → Q → R × U} {f' : U → Q' → R × U}
    (hf : ∀ s q q', W q q' → f s q = f' s q') {p : Client Q R α} {p' : Client Q' R α'}
    (h : Matches W S p p') (s : U) : S (p.serve f s).1 (p'.serve f' s).1 := by
  induction p generalizing p' s with
  | done a =>
    cases p' with
    | done a' => exact h
    | ask q' k' => exact False.elim h
  | ask q k ih =>
    cases p' with
    | done a' => exact False.elim h
    | ask q' k' =>
      have hsame := hf s q q' h.1
      unfold Client.serve
      rw [← hsame]
      exact ih _ (h.2 _) _

end

end Client

open Client

/-- A monitor watches an exchange. It keeps a ghost state, says which requests it allows, and
which answers the peer may give. -/
structure Monitor (Q R G : Type) where
  /-- The ghost state after the exchange of a request and its answer. -/
  next : G → Q → R → G
  /-- The requests the monitor allows. -/
  allows : G → Q → Prop
  /-- The answers the peer may give. -/
  admits : G → Q → R → Prop

namespace Monitor

variable {Q R G α β : Type} (M : Monitor Q R G)

/-- The ghost state after a run. -/
def after (g : G) : List (Q × R) → G
  | [] => g
  | (q, r) :: t => after (M.next g q r) t

theorem after_append (g : G) (t₁ t₂ : List (Q × R)) :
    M.after g (t₁ ++ t₂) = M.after (M.after g t₁) t₂ := by
  induction t₁ generalizing g with
  | nil => rfl
  | cons e t ih => exact ih _

/-- Every answer of the run is one the peer may give. -/
def Admits (g : G) : List (Q × R) → Prop
  | [] => True
  | (q, r) :: t => M.admits g q r ∧ Admits (M.next g q r) t

instance instDecidableAdmits [∀ g q r, Decidable (M.admits g q r)] : ∀ g t, Decidable (M.Admits g t)
  | _, [] => .isTrue trivial
  | g, (q, r) :: t =>
      let _ := instDecidableAdmits (M.next g q r) t
      inferInstanceAs (Decidable (M.admits g q r ∧ M.Admits (M.next g q r) t))

/-- A run of answers the peer may give in any state. -/
theorem admits_of_forall {M : Monitor Q R G} {t : List (Q × R)} (h : ∀ g, ∀ e ∈ t, M.admits g e.1 e.2)
    (g : G) : M.Admits g t := by
  induction t generalizing g with
  | nil => trivial
  | cons e t ih =>
    exact ⟨h g e List.mem_cons_self, ih (fun g e he => h g e (List.mem_cons_of_mem _ he)) _⟩

/-- `M.Holds p post g`: started in the ghost state `g`, the client `p` makes only requests that
`M` allows, and returns with `post`. -/
def Holds : Client Q R α → (α → G → Prop) → G → Prop
  | done a, post, g => post a g
  | ask q k, post, g => M.allows g q ∧ ∀ r, M.admits g q r → Holds (k r) post (M.next g q r)

variable {M}

theorem holds_pure {a : α} {post : α → G → Prop} {g : G} (h : post a g) :
    M.Holds (pure a) post g := h

theorem holds_call {q : Q} {post : R → G → Prop} {g : G} (h : M.allows g q)
    (hr : ∀ r, M.admits g q r → post r (M.next g q r)) : M.Holds (call q) post g :=
  ⟨h, hr⟩

theorem Holds.mono {p : Client Q R α} {post post' : α → G → Prop} {g : G}
    (h : M.Holds p post g) (hp : ∀ a g, post a g → post' a g) : M.Holds p post' g := by
  induction p generalizing g with
  | done a => exact hp _ _ h
  | ask q k ih => exact ⟨h.1, fun r hr => ih r (h.2 r hr)⟩

theorem Holds.bind {p : Client Q R α} {f : α → Client Q R β} {mid : α → G → Prop}
    {post : β → G → Prop} {g : G} (h : M.Holds p mid g)
    (hf : ∀ a g, mid a g → M.Holds (f a) post g) : M.Holds (p >>= f) post g := by
  induction p generalizing g with
  | done a => exact hf _ _ h
  | ask q k ih => exact ⟨h.1, fun r hr => ih r (h.2 r hr)⟩

/-- A request, and what goes on from its answer. -/
theorem holds_call_bind {q : Q} {f : R → Client Q R α} {post : α → G → Prop} {g : G}
    (h : M.allows g q) (hf : ∀ r, M.admits g q r → M.Holds (f r) post (M.next g q r)) :
    M.Holds (call q >>= f) post g := ⟨h, hf⟩

theorem Holds.map {p : Client Q R α} {f : α → β} {post : β → G → Prop} {g : G}
    (h : M.Holds p (fun a g => post (f a) g) g) : M.Holds (f <$> p) post g := by
  rw [map_eq_pure_bind]
  exact h.bind fun _ _ ha => ha

/-- What `Holds` says of every run: each request is allowed where it is made, and the run ends in
the postcondition. -/
theorem Holds.runs {p : Client Q R α} {post : α → G → Prop} {g : G} (h : M.Holds p post g)
    {t : List (Q × R)} {a : α} (hr : Runs p t a) (ha : M.Admits g t) :
    (∀ t₁ q r t₂, t = t₁ ++ (q, r) :: t₂ → M.allows (M.after g t₁) q) ∧ post a (M.after g t) := by
  induction hr generalizing g with
  | done a => exact ⟨fun t₁ q r t₂ e => by simp at e, h⟩
  | @ask q k r t a _ ih =>
    obtain ⟨hallow, hpost⟩ := ih (h.2 r ha.1) ha.2
    refine ⟨?_, hpost⟩
    rintro (_ | ⟨e, t₁⟩) q' r' t₂ heq
    · obtain ⟨⟨rfl, rfl⟩, rfl⟩ : (q = q' ∧ r = r') ∧ t = t₂ := by simpa using heq
      exact h.1
    · obtain ⟨rfl, rfl⟩ : (q, r) = e ∧ t = t₁ ++ (q', r') :: t₂ := by simpa using heq
      exact hallow _ _ _ _ rfl

/-! ## The history as the ghost state -/

/-- The monitor that remembers everything exchanged so far. -/
def ofHistory (allows : List (Q × R) → Q → Prop) (admits : List (Q × R) → Q → R → Prop) :
    Monitor Q R (List (Q × R)) where
  next t q r := t ++ [(q, r)]
  allows := allows
  admits := admits

variable {allows : List (Q × R) → Q → Prop} {admits : List (Q × R) → Q → R → Prop}

theorem after_ofHistory (s t : List (Q × R)) : (ofHistory allows admits).after s t = s ++ t := by
  induction t generalizing s with
  | nil => exact (List.append_nil s).symm
  | cons e t ih =>
    rw [after, ih]
    exact List.append_assoc s [e] t

/-- Whether every answer of a history is one the peer may give there. -/
theorem admits_ofHistory_iff (s t : List (Q × R)) : (ofHistory allows admits).Admits s t ↔
    ∀ t₁ q r t₂, t = t₁ ++ (q, r) :: t₂ → admits (s ++ t₁) q r := by
  induction t generalizing s with
  | nil =>
    refine ⟨fun _ t₁ q r t₂ h => ?_, fun _ => trivial⟩
    simp at h
  | cons e t ih =>
    rw [Admits, ih]
    constructor
    · rintro ⟨he, ht⟩ (_ | ⟨e', t₁⟩) q r t₂ h
      · obtain ⟨rfl, rfl⟩ : e = (q, r) ∧ t = t₂ := by simpa using h
        rw [List.append_nil]
        exact he
      · obtain ⟨rfl, rfl⟩ : e = e' ∧ t = t₁ ++ (q, r) :: t₂ := by simpa using h
        have := ht t₁ q r t₂ rfl
        rw [List.append_cons]
        exact this
    · intro h
      refine ⟨?_, fun t₁ q r t₂ ht => ?_⟩
      · have := h [] e.1 e.2 t rfl
        rwa [List.append_nil] at this
      · have := h (e :: t₁) q r t₂ (by rw [ht]; rfl)
        rwa [List.append_cons] at this

/-- `Holds.runs` where the ghost states are the histories. -/
theorem Holds.runs_ofHistory {p : Client Q R α} {post : α → List (Q × R) → Prop}
    (h : (ofHistory allows admits).Holds p post []) {t : List (Q × R)} {a : α} (hr : Runs p t a)
    (ha : ∀ t₁ q r t₂, t = t₁ ++ (q, r) :: t₂ → admits t₁ q r) :
    (∀ t₁ q r t₂, t = t₁ ++ (q, r) :: t₂ → allows t₁ q) ∧ post a t := by
  have hruns := h.runs hr ((admits_ofHistory_iff [] t).2 ha)
  simp only [after_ofHistory, List.nil_append] at hruns
  exact hruns

/-! ## A peer with a state as a monitor -/

variable {S : Type}

/-- The monitor that watches the peer `f`: its ghost state is the peer's, and it allows everything. -/
def ofPeer (f : S → Q → R × S) : Monitor Q R S where
  next s q _ := (f s q).2
  allows _ _ := True
  admits s q r := r = (f s q).1

/-- What `Holds` says of a client against a peer with a state. -/
theorem Holds.serve {f : S → Q → R × S} {p : Client Q R α} {post : α → S → Prop} {s : S}
    (h : (ofPeer f).Holds p post s) : post (p.serve f s).1 (p.serve f s).2 := by
  induction p generalizing s with
  | done a => exact h
  | ask q k ih => exact ih _ (h.2 _ rfl)

end Monitor

end Exchange
