import FrostlakeOdbc.ProtoRuns

/-!
# The rule of an execution

What has to be shown of single POSTs so that something holds of a whole execution
(`holds_flProtoExecuteAs`). The conditions a proof chooses are `Pass i`, for where the scope goes on
and `i` statements of it are through, and `Ready`, for where the scope is on. Where one invariant of
the connection serves for all of them it is enough that each POST keeps it
(`PostsKeep.holds_execute`).
-/

namespace FrostlakeOdbc

open CString JsonText Exchange Client

variable {G : Type} {M : Monitor Request HttpReply G}

theorem holds_post {origin : Origin} {dbc : Dbc} {sql : Bytes} {count : ℤ} {g : G}
    {post' : Outcome × Dbc → G → Prop} (hallow : M.allows g (.post ⟨origin, dbc, sql, count⟩))
    (hnext : ∀ reply, M.admits g (.post ⟨origin, dbc, sql, count⟩) reply →
      post' (readReply dbc reply) (M.next g (.post ⟨origin, dbc, sql, count⟩) reply)) :
    M.Holds (post origin dbc sql count) post' g := by
  unfold post
  exact (Monitor.holds_call hallow hnext).bind fun reply g h => Monitor.holds_pure h

section

variable (Pass : ℕ → Dbc → G → Prop) (Ready : Dbc → G → Prop) (Q : Result × Dbc → G → Prop)

/-- What has to hold where the engine did not hold the session: the call may end with an error, and
where nothing was lost the scope may go on from the start. -/
def AfterLoss (dbc : Dbc) (g : G) : Prop :=
  (∀ e : TransportError, e.isLostSession = true → Q (.error e, forgetSession dbc) g) ∧
    (dbc.inTransaction = false → dbc.sessionDirty = false → Pass 0 (forgetSession dbc) g)

/-- What has to hold after statement `i` of the scope. -/
def AfterScope (i : ℕ) : Outcome × Dbc → G → Prop
  | (.gone, dbc), g => AfterLoss Pass Q dbc g
  | (.failed e, dbc), g => Q (.error e, dbc) g
  | (.answered response, dbc), g =>
      (response.errorMessage = none → Pass (i + 1) dbc g) ∧
        ∀ message, response.errorMessage = some message →
          Q (scopeFailed (.refused message), dbc) g

/-- What has to hold after the caller's statement. -/
def AfterStatement (flags : ExecFlags) (sql : Bytes) : Outcome × Dbc → G → Prop
  | (.gone, dbc), g => AfterLoss Pass Q dbc g
  | (.failed e, dbc), g => Q (.error e, dbc) g
  | (.answered response, dbc), g => Q (finish flags sql (.answered response, dbc)) g

/-- What has to hold after the scope, all `n` statements of it or what is left of them. -/
def AfterPass (n : ℕ) : ScopeOutcome × Dbc → G → Prop
  | (none, dbc), g => Pass n dbc g
  | (some failure, dbc), g => Q (scopeFailed failure, dbc) g

end

variable {Pass : ℕ → Dbc → G → Prop} {Ready : Dbc → G → Prop} {Q : Result × Dbc → G → Prop}
  {scope : List Bytes}

/-- Every statement of the scope may be sent, and its answer keeps the conditions. -/
def ScopeKeeps (M : Monitor Request HttpReply G) (Pass : ℕ → Dbc → G → Prop)
    (Q : Result × Dbc → G → Prop) (scope : List Bytes) : Prop :=
  ∀ i sql dbc g, scope[i]? = some sql → Pass i dbc g →
    M.allows g (.post ⟨.scope i, dbc, sql, -1⟩) ∧
    ∀ reply, M.admits g (.post ⟨.scope i, dbc, sql, -1⟩) reply →
      AfterScope Pass Q i (readReply dbc reply) (M.next g (.post ⟨.scope i, dbc, sql, -1⟩) reply)

/-- The caller's statement may be sent, and its answer keeps the conditions. -/
def StatementKeeps (M : Monitor Request HttpReply G) (Pass : ℕ → Dbc → G → Prop)
    (Ready : Dbc → G → Prop) (Q : Result × Dbc → G → Prop) (sql : Bytes) (count : ℤ)
    (flags : ExecFlags) : Prop :=
  ∀ dbc g, Ready dbc g →
    M.allows g (.post ⟨.statement flags, dbc, sql, count⟩) ∧
    ∀ reply, M.admits g (.post ⟨.statement flags, dbc, sql, count⟩) reply →
      AfterStatement Pass Q flags sql (readReply dbc reply)
        (M.next g (.post ⟨.statement flags, dbc, sql, count⟩) reply)

section

variable {flags : ExecFlags} {p : Post} {reply : HttpReply} {g : G} {i : ℕ}

/-- The connection after an answer that is taken in. -/
def Post.absorbed (p : Post) (root : Value) : Dbc := absorbSession p.dbc root p.dbc.sessionId.isSome

@[simp] theorem settings_absorbed (p : Post) (root : Value) :
    (p.absorbed root).settings = p.dbc.settings := settings_absorbSession _ _ _

/-- After a statement of the scope: a loss of the session, a failure of the transport, a success or
a refusal. -/
theorem afterScope_of_reply
    (hlost : losesSession p reply = true → AfterLoss Pass Q p.dbc g)
    (hfailed : answerTo p reply = none → losesSession p reply = false →
      ∀ e : TransportError, e.isLostSession = false → Q (.error e, p.dbc) g)
    (hsuccess : ∀ root, answerTo p reply = some root → success root = true →
      Pass (i + 1) (p.absorbed root) g)
    (hrefused : ∀ root, answerTo p reply = some root → success root = false →
      ∀ message, Q (scopeFailed (.refused message), p.absorbed root) g) :
    AfterScope Pass Q i (readReply p.dbc reply) g := by
  cases hans : answerTo p reply with
  | none =>
    cases hloses : losesSession p reply with
    | true =>
      rw [readReply_of_losesSession hloses]
      exact hlost hloses
    | false =>
      obtain ⟨e, he, hr⟩ := readReply_of_failed hans hloses
      rw [hr]
      exact hfailed hans hloses e he
  | some root =>
    rw [readReply_of_answerTo hans]
    refine ⟨fun hm => hsuccess root hans ((decodeResponse_errorMessage root).1 hm), fun m hm => ?_⟩
    cases hs : success root
    · exact hrefused root hans hs m
    · rw [(decodeResponse_errorMessage root).2 hs] at hm
      cases hm

theorem afterStatement_of_reply {sql : Bytes}
    (hlost : losesSession p reply = true → AfterLoss Pass Q p.dbc g)
    (hfailed : answerTo p reply = none → losesSession p reply = false →
      ∀ e : TransportError, e.isLostSession = false → Q (.error e, p.dbc) g)
    (hsome : ∀ root, answerTo p reply = some root →
      Q (.ok (decodeResponse root),
        if success root && flags.tracked then flSessionNote (p.absorbed root) sql
        else p.absorbed root) g) :
    AfterStatement Pass Q flags sql (readReply p.dbc reply) g := by
  cases hans : answerTo p reply with
  | none =>
    cases hloses : losesSession p reply with
    | true =>
      rw [readReply_of_losesSession hloses]
      exact hlost hloses
    | false =>
      obtain ⟨e, he, hr⟩ := readReply_of_failed hans hloses
      rw [hr]
      exact hfailed hans hloses e he
  | some root =>
    rw [readReply_of_answerTo hans]
    have hsame : (decodeResponse root).errorMessage.isNone = success root := by
      rw [Bool.eq_iff_iff, Option.isNone_iff_eq_none]
      exact decodeResponse_errorMessage root
    have := hsome root hans
    rw [← hsame] at this
    exact this

/-- `afterScope_of_reply` where a loss and a failure leave the same ghost state. -/
theorem afterScope_readReply
    (hnone : answerTo p reply = none → AfterLoss Pass Q p.dbc g ∧
      ∀ e : TransportError, e.isLostSession = false → Q (.error e, p.dbc) g)
    (hsuccess : ∀ root, answerTo p reply = some root → success root = true →
      Pass (i + 1) (p.absorbed root) g)
    (hrefused : ∀ root, answerTo p reply = some root → success root = false →
      ∀ message, Q (scopeFailed (.refused message), p.absorbed root) g) :
    AfterScope Pass Q i (readReply p.dbc reply) g :=
  afterScope_of_reply (fun h => (hnone (answerTo_of_losesSession h)).1)
    (fun h _ => (hnone h).2) hsuccess hrefused

theorem afterStatement_readReply {sql : Bytes}
    (hnone : answerTo p reply = none → AfterLoss Pass Q p.dbc g ∧
      ∀ e : TransportError, e.isLostSession = false → Q (.error e, p.dbc) g)
    (hsome : ∀ root, answerTo p reply = some root →
      Q (.ok (decodeResponse root),
        if success root && flags.tracked then flSessionNote (p.absorbed root) sql
        else p.absorbed root) g) :
    AfterStatement Pass Q flags sql (readReply p.dbc reply) g :=
  afterStatement_of_reply (fun h => (hnone (answerTo_of_losesSession h)).1)
    (fun h _ => (hnone h).2) hsome

end

theorem holds_sendScope (hscope : ScopeKeeps M Pass Q scope)
    {whenGone : Dbc → Call (ScopeOutcome × Dbc)}
    (hgone : ∀ dbc g, AfterLoss Pass Q dbc g → M.Holds (whenGone dbc) (AfterPass Pass Q scope.length) g)
    {done rest : List Bytes} (hsplit : scope = done ++ rest) {dbc : Dbc} {g : G}
    (h : Pass done.length dbc g) :
    M.Holds (sendScope whenGone done.length rest dbc) (AfterPass Pass Q scope.length) g := by
  induction rest generalizing done dbc g with
  | nil =>
    rw [List.append_nil] at hsplit
    rw [hsplit]
    exact Monitor.holds_pure h
  | cons sql rest ih =>
    have hat : scope[done.length]? = some sql := by
      rw [hsplit, List.getElem?_append_right (Nat.le_refl _), Nat.sub_self]
      rfl
    obtain ⟨hallow, hnext⟩ := hscope done.length sql dbc g hat h
    apply (holds_post hallow hnext).bind
    rintro ⟨outcome, d⟩ g' hafter
    cases outcome with
    | gone => exact hgone d g' hafter
    | failed e => exact Monitor.holds_pure hafter
    | answered response =>
      obtain ⟨hok, hrefused⟩ := hafter
      cases hm : response.errorMessage with
      | some message =>
        simp only [hm]
        exact Monitor.holds_pure (hrefused message hm)
      | none =>
        simp only [hm]
        have hlen : done.length + 1 = (done ++ [sql]).length := by simp
        rw [hlen]
        apply ih (by rw [hsplit]; simp)
        rw [← hlen]
        exact hok hm

/-- The whole scope goes on. -/
theorem holds_sendScope_all (hscope : ScopeKeeps M Pass Q scope)
    {whenGone : Dbc → Call (ScopeOutcome × Dbc)}
    (hgone : ∀ dbc g, AfterLoss Pass Q dbc g → M.Holds (whenGone dbc) (AfterPass Pass Q scope.length) g)
    {dbc : Dbc} {g : G} (h : Pass 0 dbc g) :
    M.Holds (sendScope whenGone 0 scope dbc) (AfterPass Pass Q scope.length) g := by
  have hstart : Pass ([] : List Bytes).length dbc g := h
  exact holds_sendScope hscope hgone (List.nil_append scope).symm hstart

theorem loseSession_cases (dbc : Dbc) :
    (∃ e : TransportError, e.isLostSession = true ∧ loseSession dbc = (some e, forgetSession dbc)) ∨
    (dbc.inTransaction = false ∧ dbc.sessionDirty = false ∧
      loseSession dbc = (none, forgetSession dbc)) := by
  unfold loseSession
  cases htx : dbc.inTransaction
  · cases hdirty : dbc.sessionDirty
    · exact Or.inr ⟨rfl, rfl, rfl⟩
    · exact Or.inl ⟨.lostContext, rfl, rfl⟩
  · exact Or.inl ⟨.lostTransaction, rfl, rfl⟩

theorem holds_applyScope (hscope : ScopeKeeps M Pass Q scope) {dbc : Dbc} {g : G}
    (hstmts : scopeStatements dbc = scope) (h : Pass 0 dbc g)
    (hpass : ∀ d g, Pass scope.length d g → Ready { d with scopePending := false } g) :
    M.Holds (applyScope dbc) (fun o g =>
      match o with
      | (none, d) => Ready d g
      | (some failure, d) => Q (scopeFailed failure, d) g) g := by
  unfold applyScope
  rw [hstmts]
  have hlost : ∀ d g, AfterLoss Pass Q d g →
      M.Holds (scopeLostAgain d) (AfterPass Pass Q scope.length) g := fun d g hloss =>
    Monitor.holds_pure (hloss.1 _ rfl)
  have hrestart : ∀ d g, AfterLoss Pass Q d g →
      M.Holds (restartScope scope d) (AfterPass Pass Q scope.length) g := by
    intro d g hloss
    unfold restartScope
    rcases loseSession_cases d with ⟨e, he, hlose⟩ | ⟨htx, hdirty, hlose⟩
    · rw [hlose]
      exact Monitor.holds_pure (hloss.1 e he)
    · rw [hlose]
      exact holds_sendScope_all hscope hlost (hloss.2 htx hdirty)
  apply (holds_sendScope_all hscope hrestart h).bind
  rintro ⟨outcome, d⟩ g' hafter
  cases outcome with
  | none => exact Monitor.holds_pure (hpass d g' hafter)
  | some failure => exact Monitor.holds_pure hafter

theorem holds_withScope {p : Call (ScopeOutcome × Dbc)} {k : Dbc → Call (Result × Dbc)} {g : G}
    (hp : M.Holds p (fun o g =>
      match o with
      | (none, d) => Ready d g
      | (some failure, d) => Q (scopeFailed failure, d) g) g)
    (hk : ∀ d g, Ready d g → M.Holds (k d) Q g) : M.Holds (withScope p k) Q g := by
  apply hp.bind
  rintro ⟨outcome, d⟩ g' hafter
  cases outcome with
  | none => exact hk d g' hafter
  | some failure => exact Monitor.holds_pure hafter

section

variable {sql : Bytes} {count : ℤ} {flags : ExecFlags} {dbc : Dbc} {g : G}

theorem holds_sendLast (hstmt : StatementKeeps M Pass Ready Q sql count flags) (h : Ready dbc g) :
    M.Holds (sendLast sql count flags dbc) Q g := by
  obtain ⟨hallow, hnext⟩ := hstmt dbc g h
  apply (holds_post hallow hnext).bind
  rintro ⟨outcome, d⟩ g' hafter
  cases outcome with
  | gone => exact Monitor.holds_pure (hafter.1 .lostAgain rfl)
  | failed e => exact Monitor.holds_pure hafter
  | answered response => exact Monitor.holds_pure hafter

theorem holds_sendFirst (hscope : ScopeKeeps M Pass Q scope)
    (hpass : ∀ d g, Pass scope.length d g → Ready { d with scopePending := false } g)
    (hstmt : StatementKeeps M Pass Ready Q sql count flags)
    (hstmts : ∀ d : Dbc, d.settings = dbc.settings → scopeStatements d = scope) (h : Ready dbc g) :
    M.Holds (sendFirst sql count flags dbc) Q g := by
  obtain ⟨hallow, hnext⟩ := hstmt dbc g h
  have hpost : M.Holds (post (.statement flags) dbc sql count)
      (fun o g => o.2.settings = dbc.settings ∧ AfterStatement Pass Q flags sql o g) g :=
    holds_post hallow fun reply hr => ⟨settings_readReply dbc reply, hnext reply hr⟩
  apply hpost.bind
  rintro ⟨outcome, d⟩ g' ⟨hset, hafter⟩
  cases outcome with
  | failed e => exact Monitor.holds_pure hafter
  | answered response => exact Monitor.holds_pure hafter
  | gone =>
    dsimp only
    by_cases hrecover : flags.recover = true
    · rw [hrecover, Bool.not_true, if_neg (by decide)]
      rcases loseSession_cases d with ⟨e, he, hlose⟩ | ⟨htx, hdirty, hlose⟩
      · rw [hlose]
        exact Monitor.holds_pure (hafter.1 e he)
      · rw [hlose]
        have hforget : scopeStatements (forgetSession d) = scope :=
          hstmts _ ((settings_forgetSession d).trans hset)
        exact holds_withScope (holds_applyScope hscope hforget (hafter.2 htx hdirty) hpass)
          fun d g hd => holds_sendLast hstmt hd
    · rw [Bool.not_eq_true] at hrecover
      rw [hrecover, Bool.not_false, if_pos rfl]
      exact Monitor.holds_pure (hafter.1 .lostAgain rfl)

/-- An execution keeps what every POST of it keeps. -/
theorem holds_flProtoExecuteAs (hscope : ScopeKeeps M Pass Q (scopeStatements dbc))
    (hpass : ∀ d g, Pass (scopeStatements dbc).length d g → Ready { d with scopePending := false } g)
    (hstmt : StatementKeeps M Pass Ready Q sql count flags)
    (hset : ∀ d g, Ready d g → d.settings = dbc.settings)
    (hpending : dbc.scopePending = true → Pass 0 dbc g)
    (hready : dbc.scopePending = false → Ready dbc g) :
    M.Holds (flProtoExecuteAs dbc sql count flags) Q g := by
  refine holds_withScope ?_ fun d g (hd : Ready d g) =>
    holds_sendFirst hscope hpass hstmt
      (fun d' hd' => scopeStatements_congr (hd'.trans (hset d g hd))) hd
  cases hp : dbc.scopePending
  · exact Monitor.holds_pure (hready hp)
  · exact holds_applyScope hscope rfl (hpending hp) hpass

end

/-! ## An invariant of the connection -/

/-- Every POST may be sent where `Inv` holds of its connection, and `Inv` holds again after its answer:
after a loss of the session, a failure of the transport, or an answer that is taken in and noted. -/
structure PostsKeep (M : Monitor Request HttpReply G) (Inv : Dbc → G → Prop) : Prop where
  allows : ∀ {p : Post} {g : G}, Inv p.dbc g → M.allows g (.post p)
  lost : ∀ {p : Post} {g : G} {reply : HttpReply}, Inv p.dbc g → M.admits g (.post p) reply →
    losesSession p reply = true → Inv (forgetSession p.dbc) (M.next g (.post p) reply)
  failed : ∀ {p : Post} {g : G} {reply : HttpReply}, Inv p.dbc g → M.admits g (.post p) reply →
    answerTo p reply = none → losesSession p reply = false → Inv p.dbc (M.next g (.post p) reply)
  absorbed : ∀ {p : Post} {g : G} {reply : HttpReply} {root : Value}, Inv p.dbc g →
    M.admits g (.post p) reply → answerTo p reply = some root →
      Inv (p.absorbed root) (M.next g (.post p) reply)
  noted : ∀ {d : Dbc} {g : G} (sql : Bytes), Inv d g → Inv (flSessionNote d sql) g
  settled : ∀ {d : Dbc} {g : G}, Inv d g → Inv { d with scopePending := false } g

namespace PostsKeep

variable {Inv : Dbc → G → Prop} {dbc : Dbc}

/-- The invariant, along an execution on the connection `dbc`. -/
def Along (Inv : Dbc → G → Prop) (dbc d : Dbc) (g : G) : Prop := d.settings = dbc.settings ∧ Inv d g

theorem afterLoss (h : PostsKeep M Inv) {p : Post} {g : G} {reply : HttpReply}
    (hinv : Along Inv dbc p.dbc g) (hadmits : M.admits g (.post p) reply)
    (hloses : losesSession p reply = true) :
    AfterLoss (fun _ => Along Inv dbc) (fun a g => Inv a.2 g) p.dbc (M.next g (.post p) reply) := by
  have hforget := h.lost hinv.2 hadmits hloses
  exact ⟨fun _ _ => hforget, fun _ _ => ⟨(settings_forgetSession p.dbc).trans hinv.1, hforget⟩⟩

theorem scopeKeeps (h : PostsKeep M Inv) (scope : List Bytes) :
    ScopeKeeps M (fun _ => Along Inv dbc) (fun a g => Inv a.2 g) scope := by
  intro i stmt d g _ hd
  refine ⟨h.allows hd.2, fun reply hadmits => ?_⟩
  refine afterScope_of_reply (p := ⟨.scope i, d, stmt, -1⟩) ?_ ?_ ?_ ?_
  · exact fun hloses => h.afterLoss (p := ⟨.scope i, d, stmt, -1⟩) hd hadmits hloses
  · exact fun hans hkeeps _ _ => h.failed (p := ⟨.scope i, d, stmt, -1⟩) hd.2 hadmits hans hkeeps
  · intro root hans _
    exact ⟨(settings_absorbed _ root).trans hd.1, h.absorbed hd.2 hadmits hans⟩
  · exact fun root hans _ _ => h.absorbed (p := ⟨.scope i, d, stmt, -1⟩) hd.2 hadmits hans

theorem statementKeeps (h : PostsKeep M Inv) (sql : Bytes) (count : ℤ) (flags : ExecFlags) :
    StatementKeeps M (fun _ => Along Inv dbc) (Along Inv dbc) (fun a g => Inv a.2 g) sql count
      flags := by
  intro d g hd
  refine ⟨h.allows hd.2, fun reply hadmits => ?_⟩
  refine afterStatement_of_reply (p := ⟨.statement flags, d, sql, count⟩) ?_ ?_ ?_
  · exact fun hloses => h.afterLoss (p := ⟨.statement flags, d, sql, count⟩) hd hadmits hloses
  · exact fun hans hkeeps _ _ => h.failed (p := ⟨.statement flags, d, sql, count⟩) hd.2 hadmits hans hkeeps
  · intro root hans
    have habsorbed := h.absorbed (p := ⟨.statement flags, d, sql, count⟩) hd.2 hadmits hans
    dsimp only
    split
    · exact h.noted sql habsorbed
    · exact habsorbed

/-- An execution keeps the invariant. -/
theorem holds_execute (h : PostsKeep M Inv) {g : G} (hinv : Inv dbc g) (sql : Bytes) (count : ℤ)
    (flags : ExecFlags) :
    M.Holds (flProtoExecuteAs dbc sql count flags) (fun a g => Inv a.2 g) g :=
  holds_flProtoExecuteAs (h.scopeKeeps _) (fun _ _ hd => ⟨hd.1, h.settled hd.2⟩)
    (h.statementKeeps sql count flags) (fun _ _ hd => hd.1) (fun _ => ⟨rfl, hinv⟩) fun _ => ⟨rfl, hinv⟩

end PostsKeep

end FrostlakeOdbc
