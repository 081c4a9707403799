import FrostlakeOdbc.Lib.Client

/-!
# Clients over a lower channel

The requests of one channel may be programs of a channel below. `p.carriedBy h` is the client `p` with
each of its requests carried out by `h`, which may not come to an answer. A run of it is a run of `p`
together with one run of `h` for every request (`runs_carriedBy_iff`), so what holds of every run of `p`
holds of the layers together; and what each run of `h` keeps of the lower channel, any number of them
keep (`Monitor.holds_carriedBy`).
-/

namespace Exchange

variable {Q R Q' R' α β G : Type}

namespace Client

/-- `p` with its requests carried out by `h`; `none` where one of them comes to no answer. -/
def carriedBy (h : Q → Client Q' R' (Option R)) : Client Q R α → Client Q' R' (Option α)
  | done a => done (some a)
  | ask q k => (h q).bind fun r => r.elim (done none) fun r => (k r).carriedBy h

theorem carriedBy_ask (h : Q → Client Q' R' (Option R)) (q : Q) (k : R → Client Q R α) :
    (ask q k).carriedBy h = h q >>= fun r => r.elim (pure none) fun r => (k r).carriedBy h := rfl

/-- The exchange `t` is what the exchanges `s` of the lower channel, one for each request, come to. -/
inductive Carries (h : Q → Client Q' R' (Option R)) :
    List (Q × R) → List (List (Q' × R')) → Prop where
  | nil : Carries h [] []
  | cons {q : Q} {r : R} {s : List (Q' × R')} {t : List (Q × R)} {ss : List (List (Q' × R'))}
      (hq : Runs (h q) s (some r)) (ht : Carries h t ss) : Carries h ((q, r) :: t) (s :: ss)

variable {h : Q → Client Q' R' (Option R)}

theorem Carries.forall₂ {t : List (Q × R)} {ss : List (List (Q' × R'))} (hc : Carries h t ss) :
    List.Forall₂ (fun e s => Runs (h e.1) s (some e.2)) t ss := by
  induction hc with
  | nil => exact .nil
  | cons hq _ ih => exact .cons hq ih

theorem runs_carriedBy_iff {p : Client Q R α} {u : List (Q' × R')} {a : α} :
    Runs (p.carriedBy h) u (some a) ↔ ∃ t ss, Carries h t ss ∧ ss.flatten = u ∧ Runs p t a := by
  constructor
  · intro hrun
    induction p generalizing u with
    | done b =>
      obtain ⟨rfl, hab⟩ := runs_pure_iff.1 hrun
      obtain rfl := Option.some.inj hab
      exact ⟨[], [], .nil, rfl, .done a⟩
    | ask q k ih =>
      rw [carriedBy_ask] at hrun
      obtain ⟨s, u', r, rfl, hs, hrest⟩ := runs_bind_iff.1 hrun
      cases r with
      | none => exact absurd (runs_pure_iff.1 hrest).2 (Option.some_ne_none a)
      | some r =>
        obtain ⟨t, ss, hc, rfl, ht⟩ := ih r hrest
        exact ⟨(q, r) :: t, s :: ss, .cons hs hc, rfl, .ask ht⟩
  · rintro ⟨t, ss, hc, rfl, hp⟩
    induction hp generalizing ss with
    | done b =>
      cases hc
      exact .done _
    | ask _ ih =>
      cases hc with
      | cons hq ht =>
        rw [carriedBy_ask]
        exact hq.bind (ih _ ht)

/-- A client comes to no answer only where one of its requests does not. -/
theorem runs_carriedBy_none {p : Client Q R α} {u : List (Q' × R')}
    (hrun : Runs (p.carriedBy h) u none) : ∃ q before s, u = before ++ s ∧ Runs (h q) s none := by
  induction p generalizing u with
  | done b => exact absurd (runs_pure_iff.1 hrun).2 (Option.some_ne_none b).symm
  | ask q k ih =>
    rw [carriedBy_ask] at hrun
    obtain ⟨s, u', r, rfl, hs, hrest⟩ := runs_bind_iff.1 hrun
    cases r with
    | none =>
      obtain ⟨rfl, -⟩ := runs_pure_iff.1 hrest
      exact ⟨q, [], s, by simp, hs⟩
    | some r =>
      obtain ⟨q', before, s', rfl, hs'⟩ := ih r hrest
      exact ⟨q', s ++ before, s', (List.append_assoc s before s').symm, hs'⟩

end Client

open Client

namespace Monitor

variable {M : Monitor Q' R' G} {h : Q → Client Q' R' (Option R)}

/-- What every request of a client keeps of the lower channel, the client keeps; `Stuck` is what
holds where a request comes to no answer. -/
theorem holds_carriedBy {Inv Stuck : G → Prop}
    (hkeep : ∀ q g, Inv g → M.Holds (h q) (fun r g => if r.isSome then Inv g else Stuck g) g)
    (p : Client Q R α) {g : G} (hg : Inv g) :
    M.Holds (p.carriedBy h) (fun a g => if a.isSome then Inv g else Stuck g) g := by
  induction p generalizing g with
  | done a => exact hg
  | ask q k ih =>
    rw [carriedBy_ask]
    apply (hkeep q g hg).bind
    rintro (_ | r) g' hg'
    · exact hg'
    · exact ih r hg'

theorem admits_append (M : Monitor Q R G) (g : G) (t₁ t₂ : List (Q × R)) :
    M.Admits g (t₁ ++ t₂) ↔ M.Admits g t₁ ∧ M.Admits (M.after g t₁) t₂ := by
  induction t₁ generalizing g with
  | nil => simp [Admits, after]
  | cons e t₁ ih => rw [List.cons_append, Admits, Admits, ih, and_assoc, after]

/-- What `h` makes of each request holds of every request of a run, between the states of the lower
channel before and after it. -/
theorem forall_carries {Inv : G → Prop} {Post : Q → R → G → G → Prop}
    (hkeep : ∀ q g, Inv g → M.Holds (h q) (fun r g' => ∀ x, r = some x → Inv g' ∧ Post q x g g') g)
    {t : List (Q × R)} {ss : List (List (Q' × R'))} (hc : Carries h t ss) {g : G} (hg : Inv g)
    (ha : M.Admits g ss.flatten) :
    List.Forall₂ (fun e s => ∃ g, Post e.1 e.2 g (M.after g s)) t ss := by
  induction hc generalizing g with
  | nil => exact .nil
  | cons hq _ ih =>
    rw [List.flatten_cons, admits_append] at ha
    obtain ⟨hinv, hpost⟩ := ((hkeep _ g hg).runs hq ha.1).2 _ rfl
    exact .cons ⟨g, hpost⟩ (ih hinv ha.2)

end Monitor

end Exchange
