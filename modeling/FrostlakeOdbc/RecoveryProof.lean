import FrostlakeOdbc.ProtoRuns

/-!
# Recovery is bounded

One execution sends the caller's statement once, and a second time only where the first did not run
and nothing was lost with the session.
-/

namespace FrostlakeOdbc

open CString JsonText Exchange Client

/-- Whether a request sends the caller's statement. -/
def Request.isStatement : Request → Bool
  | .post p =>
      match p.origin with
      | .statement _ => true
      | .scope _ => false
  | _ => false

theorem IsScope.isStatement {e : Request × HttpReply} (h : IsScope e) : e.1.isStatement = false := by
  obtain ⟨p, i, hp, ho⟩ := h
  rw [hp, Request.isStatement, ho]

/-! ## The shape of a run -/

/-- The error of a call says the session was lost only if the answer refused it. -/
def ErrorTells (a : Result) (dbc : Dbc) (reply : HttpReply) : Prop :=
  ∀ e, a = .error e → e.isLostSession = true → SessionRefused dbc reply

theorem errorTells_finish (flags : ExecFlags) (sql : Bytes) (dbc : Dbc) (reply : HttpReply) :
    ErrorTells (finish flags sql (readReply dbc reply)).1 dbc reply := by
  intro e he hlost
  rcases readReply_cases dbc reply with ⟨e', he', hr⟩ | ⟨hgone, -⟩ | ⟨_, _, root, -, -, -, hr⟩
  · rw [hr] at he
    cases he
    rw [he'] at hlost
    cases hlost
  · exact hgone
  · rw [hr] at he
    cases he

/-- The caller's statement, sent over `dbc`. -/
def sent (flags : ExecFlags) (sql : Bytes) (count : ℤ) (dbc : Dbc) (reply : HttpReply) :
    Request × HttpReply :=
  (.post ⟨.statement flags, dbc, sql, count⟩, reply)

/-- The run of a call from where the scope is on: the statement is sent once, or twice with the
scope put on a fresh session in between. -/
inductive SendsOnce (flags : ExecFlags) (sql : Bytes) (count : ℤ) (stmts : List Bytes) :
    Trace → Result → Prop where
  | once {dbc : Dbc} {reply : HttpReply} {a : Result} (ha : ErrorTells a dbc reply) :
      SendsOnce flags sql count stmts [sent flags sql count dbc reply] a
  | scopeFails {dbc : Dbc} {reply : HttpReply} {t : Trace} {a : Result}
      (hgone : SessionRefused dbc reply) (ht : ∀ e ∈ t, IsScope e) (hlen : t.length ≤ 6) :
      SendsOnce flags sql count stmts (sent flags sql count dbc reply :: t) a
  | twice {dbc dbc' : Dbc} {reply reply' : HttpReply} {t pass : Trace} {a : Result}
      (hrecover : flags.recover = true) (hgone : SessionRefused dbc reply)
      (htx : dbc.inTransaction = false) (hdirty : dbc.sessionDirty = false)
      (ht : ∀ e ∈ t ++ pass, IsScope e) (hlen : (t ++ pass).length ≤ 6)
      (hpass : List.Forall₂ ScopeAnswered stmts pass) (ha : ErrorTells a dbc' reply') :
      SendsOnce flags sql count stmts
        (sent flags sql count dbc reply :: ((t ++ pass) ++ [sent flags sql count dbc' reply'])) a

theorem runs_sendLast_iff {sql : Bytes} {count : ℤ} {flags : ExecFlags} {dbc : Dbc} {t : Trace}
    {a : Result × Dbc} : Runs (sendLast sql count flags dbc) t a ↔
      ∃ reply, t = [sent flags sql count dbc reply] ∧ a = finish flags sql (readReply dbc reply) := by
  unfold sendLast
  rw [runs_post_bind_iff]
  constructor
  · rintro ⟨reply, t', rfl, h⟩
    obtain ⟨rfl, rfl⟩ := runs_pure_iff.1 h
    exact ⟨reply, rfl, rfl⟩
  · rintro ⟨reply, rfl, rfl⟩
    exact ⟨reply, [], rfl, runs_pure_iff.2 ⟨rfl, rfl⟩⟩

/-- A run that puts the scope on first. -/
theorem runs_withScope {scope : Call (ScopeOutcome × Dbc)} {k : Dbc → Call (Result × Dbc)} {t : Trace}
    {a : Result × Dbc} (h : Runs (withScope scope k) t a) :
    ∃ t₁ t₂ o, t = t₁ ++ t₂ ∧ Runs scope t₁ o ∧
      ((∃ f, o.1 = some f ∧ t₂ = [] ∧ a = (scopeFailed f, o.2)) ∨
        (o.1 = none ∧ Runs (k o.2) t₂ a)) := by
  obtain ⟨t₁, t₂, ⟨o, d⟩, rfl, h₁, h₂⟩ := runs_bind_iff.1 h
  refine ⟨t₁, t₂, (o, d), rfl, h₁, ?_⟩
  cases o with
  | none => exact Or.inr ⟨rfl, h₂⟩
  | some f =>
    obtain ⟨rfl, rfl⟩ := runs_pure_iff.1 h₂
    exact Or.inl ⟨f, rfl, rfl, rfl⟩

theorem sendsOnce_sendFirst {sql : Bytes} {count : ℤ} {flags : ExecFlags} {dbc : Dbc} {t : Trace}
    {a : Result × Dbc} (h : Runs (sendFirst sql count flags dbc) t a) :
    SendsOnce flags sql count (scopeStatements dbc) t a.1 := by
  obtain ⟨reply, t', rfl, hk⟩ := runs_post_bind_iff.1 h
  have hfin := errorTells_finish flags sql dbc reply
  rcases readReply_cases dbc reply with ⟨e, he, hr⟩ | ⟨hgone, hr⟩ | ⟨_, _, root, -, -, -, hr⟩
  · rw [hr] at hk hfin
    obtain ⟨rfl, rfl⟩ := runs_pure_iff.1 hk
    exact .once hfin
  · rw [hr] at hk
    dsimp only at hk
    by_cases hrec : flags.recover = true
    · rw [hrec] at hk
      simp only [Bool.not_true, Bool.false_eq_true, if_false] at hk
      have hset := settings_loseSession dbc
      by_cases hheld : (dbc.inTransaction || dbc.sessionDirty) = true
      · rw [loseSession, if_pos hheld] at hk
        obtain ⟨rfl, rfl⟩ := runs_pure_iff.1 hk
        exact .once fun _ _ _ => hgone
      · rw [loseSession, if_neg hheld] at hk
        simp only [Bool.or_eq_true, not_or, Bool.not_eq_true] at hheld
        obtain ⟨t₁, t₂, o, rfl, h₁, ⟨f, hf, rfl, rfl⟩ | ⟨ho, h₂⟩⟩ := runs_withScope hk
        · have hp := putsScope_applyScope h₁
          rw [List.append_nil]
          exact .scopeFails hgone hp.isScope hp.length_le
        · have hp := putsScope_applyScope h₁
          obtain ⟨reply', rfl, rfl⟩ := runs_sendLast_iff.1 h₂
          obtain ⟨t₃, pass, rfl, hpass⟩ := hp.applied ho
          have hstmts : scopeStatements (forgetSession dbc) = scopeStatements dbc :=
            scopeStatements_congr rfl
          rw [hstmts] at hpass
          exact .twice hrec hgone hheld.1 hheld.2 hp.isScope hp.length_le hpass
            (errorTells_finish flags sql o.2 reply')
    · have hrec' : flags.recover = false := by simpa using hrec
      rw [hrec'] at hk
      obtain ⟨rfl, rfl⟩ := runs_pure_iff.1 hk
      exact .once fun _ _ _ => hgone
  · rw [hr] at hk hfin
    obtain ⟨rfl, rfl⟩ := runs_pure_iff.1 hk
    exact .once hfin

/-- The run of a call: the scope first where it is pending, then the statement. -/
theorem runs_execute {sql : Bytes} {count : ℤ} {flags : ExecFlags} {dbc : Dbc} {t : Trace}
    {a : Result × Dbc} (h : Runs (flProtoExecuteAs dbc sql count flags) t a) :
    ∃ t₁ t₂, t = t₁ ++ t₂ ∧ (∀ e ∈ t₁, IsScope e) ∧ t₁.length ≤ 6 ∧
      ((t₂ = [] ∧ ∃ f, a.1 = scopeFailed f) ∨
        SendsOnce flags sql count (scopeStatements dbc) t₂ a.1) := by
  obtain ⟨t₁, t₂, o, rfl, h₁, hrest⟩ := runs_withScope h
  have hscope : o.2.settings = dbc.settings ∧ (∀ e ∈ t₁, IsScope e) ∧ t₁.length ≤ 6 := by
    split at h₁
    · have hp := putsScope_applyScope h₁
      exact ⟨hp.settings, hp.isScope, hp.length_le⟩
    · obtain ⟨rfl, rfl⟩ := runs_pure_iff.1 h₁
      exact ⟨rfl, by simp, Nat.zero_le _⟩
  obtain ⟨hset, hi, hl⟩ := hscope
  refine ⟨t₁, t₂, rfl, hi, hl, ?_⟩
  rcases hrest with ⟨f, -, rfl, rfl⟩ | ⟨-, h₂⟩
  · exact Or.inl ⟨rfl, f, rfl⟩
  · rw [← scopeStatements_congr hset]
    exact Or.inr (sendsOnce_sendFirst h₂)

/-! ## The answer a call succeeds with -/

/-- The answer to a POST of the statement is the response. -/
def AnsweredIn (sql : Bytes) (response : Response) (t : Trace) : Prop :=
  ∃ e ∈ t, ∃ p d, e.1 = .post p ∧ e.1.isStatement = true ∧ p.sql = sql ∧
    readReply p.dbc e.2 = (.answered response, d)

theorem AnsweredIn.append_left {sql : Bytes} {response : Response} {t : Trace}
    (h : AnsweredIn sql response t) (s : Trace) : AnsweredIn sql response (s ++ t) := by
  obtain ⟨e, he, hpost⟩ := h
  exact ⟨e, List.mem_append_right s he, hpost⟩

theorem answeredIn_finish {flags : ExecFlags} {sql : Bytes} {count : ℤ} {dbc d : Dbc}
    {reply : HttpReply} {response : Response}
    (h : (.ok response, d) = finish flags sql (readReply dbc reply)) :
    AnsweredIn sql response [sent flags sql count dbc reply] := by
  refine ⟨_, List.mem_singleton_self _, _, (readReply dbc reply).2, rfl, rfl, rfl, ?_⟩
  show readReply dbc reply = _
  generalize readReply dbc reply = o at h ⊢
  obtain ⟨outcome, d'⟩ := o
  cases outcome with
  | gone => cases h
  | failed e => cases h
  | answered response' => rw [Except.ok.inj (Prod.mk.inj h).1]

theorem ne_scopeFailed {response : Response} (hmessage : response.errorMessage = none)
    (f : ScopeFailure) : (.ok response : Result) ≠ scopeFailed f := by
  intro h
  cases f with
  | refused message =>
    rw [Except.ok.inj h] at hmessage
    cases hmessage
  | failed e => cases h

theorem answeredIn_sendFirst {flags : ExecFlags} {sql : Bytes} {count : ℤ} {dbc d : Dbc} {t : Trace}
    {response : Response} (h : Runs (sendFirst sql count flags dbc) t (.ok response, d))
    (hmessage : response.errorMessage = none) : AnsweredIn sql response t := by
  obtain ⟨reply, t', rfl, hk⟩ := runs_post_bind_iff.1 h
  rcases readReply_cases dbc reply with ⟨e, -, hr⟩ | ⟨-, hr⟩ | ⟨_, _, root, -, -, -, hr⟩
  · rw [hr] at hk
    cases (runs_pure_iff.1 hk).2
  · rw [hr] at hk
    dsimp only at hk
    split at hk
    · cases (runs_pure_iff.1 hk).2
    · split at hk
      · cases (runs_pure_iff.1 hk).2
      · obtain ⟨t₁, t₂, o, rfl, -, ⟨f, -, -, heq⟩ | ⟨-, hlast⟩⟩ := runs_withScope hk
        · exact absurd (Prod.mk.inj heq).1 (ne_scopeFailed hmessage f)
        · obtain ⟨reply', rfl, heq⟩ := runs_sendLast_iff.1 hlast
          exact (answeredIn_finish heq).append_left (sent flags sql count dbc reply :: t₁)
  · have hfinish := hr ▸ hk
    obtain ⟨rfl, heq⟩ := runs_pure_iff.1 hfinish
    rw [← hr] at heq
    exact answeredIn_finish heq

theorem answeredIn_execute {flags : ExecFlags} {sql : Bytes} {count : ℤ} {dbc d : Dbc} {t : Trace}
    {response : Response} (h : Runs (flProtoExecuteAs dbc sql count flags) t (.ok response, d))
    (hmessage : response.errorMessage = none) : AnsweredIn sql response t := by
  obtain ⟨t₁, t₂, o, rfl, -, ⟨f, -, -, heq⟩ | ⟨-, hfirst⟩⟩ := runs_withScope h
  · exact absurd (Prod.mk.inj heq).1 (ne_scopeFailed hmessage f)
  · exact (answeredIn_sendFirst hfirst hmessage).append_left t₁

/-! ## What bounds it -/

theorem countP_scope {t : Trace} (h : ∀ e ∈ t, IsScope e) : t.countP (·.1.isStatement) = 0 := by
  refine List.countP_eq_zero.2 fun e he => ?_
  rw [(h e he).isStatement]
  exact Bool.false_ne_true

/-- Two different splittings of a list at an element with a property that only the first has no
earlier element with. -/
theorem split_at_first {α : Type} {P : α → Prop} {t s u v : List α} {x y : α} (ht : ∀ e ∈ t, ¬P e)
    (hy : P y) (h : t ++ x :: s = u ++ y :: v) :
    (t = u ∧ x = y ∧ s = v) ∨ ∃ w, u = t ++ x :: w ∧ s = w ++ y :: v := by
  rcases List.append_eq_append_iff.1 h with ⟨w, rfl, hw⟩ | ⟨w, rfl, hw⟩
  · cases w with
    | nil =>
      rw [List.nil_append, List.cons.injEq] at hw
      exact Or.inl ⟨by simp, hw.1, hw.2⟩
    | cons a w =>
      rw [List.cons_append, List.cons.injEq] at hw
      obtain ⟨rfl, rfl⟩ := hw
      exact Or.inr ⟨w, rfl, rfl⟩
  · cases w with
    | nil =>
      rw [List.nil_append, List.cons.injEq] at hw
      exact Or.inl ⟨by simp, hw.1.symm, hw.2.symm⟩
    | cons a w =>
      rw [List.cons_append, List.cons.injEq] at hw
      obtain ⟨rfl, -⟩ := hw
      exact absurd hy (ht _ (by simp))

section

variable {flags : ExecFlags} {sql : Bytes} {count : ℤ} {stmts : List Bytes} {t : Trace} {a : Result}

theorem SendsOnce.entries (h : SendsOnce flags sql count stmts t a) :
    ∀ e ∈ t, IsScope e ∨ ∃ dbc reply, e = sent flags sql count dbc reply := by
  intro e he
  cases h with
  | once ha => exact Or.inr ⟨_, _, List.mem_singleton.1 he⟩
  | scopeFails hgone ht hlen =>
    rcases List.mem_cons.1 he with rfl | he
    · exact Or.inr ⟨_, _, rfl⟩
    · exact Or.inl (ht e he)
  | twice hrecover hgone htx hdirty ht hlen hpass ha =>
    rcases List.mem_cons.1 he with rfl | he
    · exact Or.inr ⟨_, _, rfl⟩
    · rcases List.mem_append.1 he with he | he
      · exact Or.inl (ht e he)
      · exact Or.inr ⟨_, _, List.mem_singleton.1 he⟩

/-- Every POST of the statement of an execution holds it as it was given. -/
theorem posts_execute {dbc : Dbc} {result : Result × Dbc}
    (h : Runs (flProtoExecuteAs dbc sql count flags) t result) {e : Request × HttpReply} (he : e ∈ t)
    {p : Post} (hp : e.1 = .post p) (hstmt : e.1.isStatement = true) :
    p.sql = sql ∧ p.count = count := by
  obtain ⟨t₁, t₂, rfl, hscope, -, hsends⟩ := runs_execute h
  have hpost : IsScope e ∨ ∃ d reply, e = sent flags sql count d reply := by
    rcases List.mem_append.1 he with he | he
    · exact Or.inl (hscope e he)
    · rcases hsends with ⟨rfl, -⟩ | hsends
      · cases he
      · exact hsends.entries e he
  rcases hpost with hpost | ⟨d, reply, rfl⟩
  · rw [hpost.isStatement] at hstmt
    cases hstmt
  · cases hp
    exact ⟨rfl, rfl⟩

theorem SendsOnce.length_le (h : SendsOnce flags sql count stmts t a) : t.length ≤ 8 := by
  cases h with
  | once ha => simp
  | scopeFails hgone ht hlen =>
    rw [List.length_cons]
    omega
  | twice hrecover hgone htx hdirty ht hlen hpass ha =>
    rw [List.length_cons, List.length_append, List.length_singleton]
    omega

theorem countP_sent (dbc : Dbc) (reply : HttpReply) (t : Trace) :
    (sent flags sql count dbc reply :: t).countP (·.1.isStatement) =
      t.countP (·.1.isStatement) + 1 :=
  List.countP_cons_of_pos rfl

theorem SendsOnce.countP_le (h : SendsOnce flags sql count stmts t a) :
    t.countP (·.1.isStatement) ≤ 2 := by
  cases h with
  | once ha =>
    rw [countP_sent]
    decide
  | scopeFails hgone ht hlen =>
    rw [countP_sent, countP_scope ht]
    decide
  | twice hrecover hgone htx hdirty ht hlen hpass ha =>
    rw [countP_sent, List.countP_append, countP_scope ht, countP_sent]
    decide

theorem two_le_countP {t t₁ t₂ t₃ : Trace} {e₁ e₂ : Request × HttpReply}
    (ht : t = t₁ ++ e₁ :: (t₂ ++ e₂ :: t₃)) (h₁ : e₁.1.isStatement = true)
    (h₂ : e₂.1.isStatement = true) : 2 ≤ t.countP (·.1.isStatement) := by
  rw [ht, List.countP_append, List.countP_cons, if_pos h₁, List.countP_append, List.countP_cons,
    if_pos h₂]
  omega

/-- What must be so when the statement goes twice. -/
def MayRepeat (flags : ExecFlags) (stmts : List Bytes) (dbc : Dbc) (reply : HttpReply)
    (between : Trace) : Prop :=
  flags.recover = true ∧ SessionRefused dbc reply ∧ dbc.inTransaction = false ∧
    dbc.sessionDirty = false ∧
    ∃ t pass, between = t ++ pass ∧ List.Forall₂ ScopeAnswered stmts pass

theorem SendsOnce.mayRepeat (h : SendsOnce flags sql count stmts t a) {t₁ t₂ t₃ : Trace}
    {e₁ e₂ : Request × HttpReply} (ht : t = t₁ ++ e₁ :: (t₂ ++ e₂ :: t₃))
    (h₁ : e₁.1.isStatement = true) (h₂ : e₂.1.isStatement = true) :
    ∃ dbc reply, e₁ = sent flags sql count dbc reply ∧ MayRepeat flags stmts dbc reply t₂ := by
  have hcount := two_le_countP ht h₁ h₂
  cases h with
  | once ha =>
    rw [countP_sent] at hcount
    exact absurd hcount (by decide)
  | scopeFails hgone hi hlen =>
    rw [countP_sent, countP_scope hi] at hcount
    exact absurd hcount (by decide)
  | @twice dbc dbc' reply reply' t pass a hrecover hgone htx hdirty hi hlen hpass ha =>
    have hno : ∀ e ∈ t ++ pass, ¬e.1.isStatement = true := fun e he => by
      rw [(hi e he).isStatement]
      exact Bool.false_ne_true
    obtain ⟨rfl, rfl, hrest⟩ | ⟨w, -, hrest⟩ :=
      split_at_first (P := fun e : Request × HttpReply => e.1.isStatement = true)
        (t := []) (by simp) h₁ ht
    · obtain ⟨rfl, -, -⟩ | ⟨w, -, hend⟩ := split_at_first hno h₂ hrest
      · exact ⟨dbc, reply, rfl, hrecover, hgone, htx, hdirty, t, pass, rfl, hpass⟩
      · simp at hend
    · -- both would have to come after the first
      have hcount' := two_le_countP hrest h₁ h₂
      rw [List.countP_append, countP_scope hi, countP_sent] at hcount'
      exact absurd hcount' (by decide)

theorem SendsOnce.lost (h : SendsOnce flags sql count stmts t a) {e : TransportError}
    (ha : a = .error e) (hlost : e.isLostSession = true) {p : Post} {reply : HttpReply}
    (hmem : (Request.post p, reply) ∈ t) (hp : (Request.post p).isStatement = true) :
    SessionRefused p.dbc reply := by
  have hscope : ∀ {t : Trace}, (∀ e ∈ t, IsScope e) → (Request.post p, reply) ∉ t := by
    intro t ht hm
    rw [(ht _ hm).isStatement] at hp
    cases hp
  cases h with
  | once htells =>
    cases List.mem_singleton.1 hmem
    exact htells e ha hlost
  | scopeFails hgone ht hlen =>
    rcases List.mem_cons.1 hmem with he | he
    · cases he
      exact hgone
    · exact absurd he (hscope ht)
  | twice hrecover hgone htx hdirty ht hlen hpass htells =>
    rcases List.mem_cons.1 hmem with he | he
    · cases he
      exact hgone
    · rcases List.mem_append.1 he with he | he
      · exact absurd he (hscope ht)
      · cases List.mem_singleton.1 he
        exact htells e ha hlost

end

/-- One call makes at most 14 POSTs, two of them of the caller's statement. It sends the statement
again only if it may recover, the first POST of it was refused as a lost session, nothing was lost
with that session, and the scope was put on a session in between. And a call that ends in a
lost-session error has had every POST of the statement refused, so the statement did not run. -/
theorem flProtoExecuteAs_bounded {dbc : Dbc} {sql : Bytes} {count : ℤ} {flags : ExecFlags} {t : Trace}
    {a : Result × Dbc} (h : Runs (flProtoExecuteAs dbc sql count flags) t a) :
    (∀ e ∈ t, ∃ p, e.1 = .post p ∧ (e.1.isStatement = true → p.sql = sql ∧ p.count = count)) ∧
    t.length ≤ 14 ∧
    t.countP (·.1.isStatement) ≤ 2 ∧
    (∀ t₁ p₁ reply₁ t₂ p₂ reply₂ t₃,
      t = t₁ ++ (.post p₁, reply₁) :: (t₂ ++ (.post p₂, reply₂) :: t₃) →
      (Request.post p₁).isStatement = true → (Request.post p₂).isStatement = true →
      MayRepeat flags (scopeStatements dbc) p₁.dbc reply₁ t₂) ∧
    (∀ e, a.1 = .error e → e.isLostSession = true → ∀ p reply, (.post p, reply) ∈ t →
      (Request.post p).isStatement = true → SessionRefused p.dbc reply) := by
  obtain ⟨t₁, t₂, rfl, hscope, hlen, hsends⟩ := runs_execute h
  have hno : ∀ e ∈ t₁, ¬e.1.isStatement = true := fun e he => by
    rw [(hscope e he).isStatement]
    exact Bool.false_ne_true
  have hpost : ∀ e, IsScope e ∨ (∃ d reply, e = sent flags sql count d reply) →
      ∃ p, e.1 = .post p ∧ (e.1.isStatement = true → p.sql = sql ∧ p.count = count) := by
    rintro e (he | ⟨d, reply, rfl⟩)
    · obtain ⟨p, -, hp, -⟩ := id he
      refine ⟨p, hp, fun hs => ?_⟩
      rw [he.isStatement] at hs
      cases hs
    · exact ⟨_, rfl, fun _ => ⟨rfl, rfl⟩⟩
  rcases hsends with ⟨rfl, -⟩ | hsends
  · rw [List.append_nil]
    refine ⟨fun e he => hpost e (Or.inl (hscope e he)), by omega, by rw [countP_scope hscope]; decide,
      ?_, ?_⟩
    · rintro u p₁ reply₁ v p₂ reply₂ w rfl h₁ -
      exact absurd h₁ (hno (.post p₁, reply₁) (by simp))
    · intro e _ _ p reply hmem hp
      exact absurd hp (hno _ hmem)
  refine ⟨?_, ?_, ?_, ?_, ?_⟩
  · intro e he
    rcases List.mem_append.1 he with he | he
    · exact hpost e (Or.inl (hscope e he))
    · exact hpost e (hsends.entries e he)
  · have := hsends.length_le
    rw [List.length_append]
    omega
  · rw [List.countP_append, countP_scope hscope, Nat.zero_add]
    exact hsends.countP_le
  · intro u p₁ reply₁ v p₂ reply₂ w ht h₁ h₂
    -- the scope that goes on first holds no statement of the caller's
    obtain ⟨u', hu, htail⟩ : ∃ u', u = t₁ ++ u' ∧
        t₂ = u' ++ (.post p₁, reply₁) :: (v ++ (.post p₂, reply₂) :: w) := by
      rcases List.append_eq_append_iff.1 ht with ⟨x, rfl, hx⟩ | ⟨x, rfl, hx⟩
      · exact ⟨x, rfl, hx⟩
      · cases x with
        | nil => exact ⟨[], by simp, by simpa using hx.symm⟩
        | cons y x =>
          rw [List.cons_append, List.cons.injEq] at hx
          exact absurd h₁ (hno (.post p₁, reply₁) (by simp [← hx.1]))
    obtain ⟨d, reply, he, hrep⟩ := hsends.mayRepeat htail h₁ h₂
    cases he
    exact hrep
  · intro e ha hlost p reply hmem hp
    rcases List.mem_append.1 hmem with hm | hm
    · exact absurd hp (hno _ hm)
    · exact hsends.lost ha hlost hm hp

/-- A session that held nothing is lost, and the statement goes twice. -/
theorem flProtoExecuteAs_bounded_twice :
    ∃ t a, Runs (flProtoExecuteAs { allocDbc with sessionId := some (lit "s1"), tracksSessions := 1 }
        (lit "SELECT 1") (-1) { tracked := true, recover := true }) t a ∧
      t.length = 2 ∧ t.countP (·.1.isStatement) ≤ 2 :=
  have h := runs_of_play (flProtoExecuteAs
      { allocDbc with sessionId := some (lit "s1"), tracksSessions := 1 } (lit "SELECT 1") (-1)
      { tracked := true, recover := true })
    [.answered 404 (lit "\x7b\"success\":false\x7d"),
      .answered 200 (lit "\x7b\"success\":true,\"sessionId\":\"s2\",\"newSession\":true\x7d")] rfl
  ⟨_, _, h, rfl, (flProtoExecuteAs_bounded h).2.2.1⟩

end FrostlakeOdbc
