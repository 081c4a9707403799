import FrostlakeOdbc.StatementProof

/-!
# Substitution is all or nothing

A statement with markers is handed to `run_sql` with a literal in the place of each of them, or not at
all. Then nothing is sent, and the statement handle is what it was (`executes_all_or_nothing`).
-/

namespace FrostlakeOdbc

open CString Exchange Client Scan

/-- The value of a parameter holds no NUL byte. -/
def BoundParam.NulFree (param : BoundParam) : Prop :=
  match param.buffer with
  | some (.char memory) => 0 ∉ bufferText memory param.indicator
  | some (.float printed) | some (.double printed) => 0 ∉ printed
  | _ => True

/-- The parameter of a number is bound and has a literal. -/
def Renders (params : List BoundParam) (i : ℕ) : Prop :=
  ∃ param literal, params[i]? = some param ∧ param.bound = true ∧ appendParamLiteral param = .ok literal

/-- The calls that execute the C string `sql`. -/
inductive Executes (stmt : Stmt) (sql : Bytes) (dbc : Dbc) :
    Call (Except Diag Unit × Stmt × Dbc) → Prop
  | direct (text : Bytes) (length : ℤ) (h : copySql text length = sql) :
      Executes stmt sql dbc (sqlExecDirect stmt text length dbc)
  | prepared (h : stmt.preparedSql = some sql) (h0 : 0 ∉ sql) :
      Executes stmt sql dbc (sqlExecute stmt dbc)

/-- Some parameter of a statement is bound, and its text has a marker. -/
def Substitutes (stmt : Stmt) (sql : Bytes) : Prop :=
  (∃ param ∈ stmt.params, param.bound = true) ∧ 0 < countPlaceholders sql

/-- A statement is handed to `run_sql` with the literals of its first parameters in the places of its
markers, if each of these has one, and is otherwise refused with nothing sent and nothing changed. -/
structure AllOrNothing (stmt : Stmt) (sql : Bytes) (dbc : Dbc)
    (call : Call (Except Diag Unit × Stmt × Dbc)) : Prop where
  handed_iff : Substitutes stmt sql → ((∃ statement, call = runSql stmt statement dbc) ↔
    ∀ i < countPlaceholders sql, Renders stmt.params i)
  filled : Substitutes stmt sql → (∀ i < countPlaceholders sql, Renders stmt.params i) →
    ∃ literals, Rendered (stmt.params.take (countPlaceholders sql)) literals ∧
      literals.length = countPlaceholders sql ∧
      call = runSql stmt
        (fill (fun literal => [literal]) (segments flSqlSkip sql) literals).flatten dbc
  refused : Substitutes stmt sql → (¬∀ i < countPlaceholders sql, Renders stmt.params i) →
    ∃ diag, call = pure (.error diag, stmt, dbc)
  unchanged : ¬Substitutes stmt sql → call = runSql stmt sql dbc

/-! ## Literals without NUL bytes -/

theorem zero_notMem_intText (n : ℤ) : 0 ∉ intText n := by
  have hdigits : 0 ∉ natText n.natAbs := fun h => absurd (isDigit_of_mem_natText h) (by decide)
  unfold intText
  split_ifs
  · rw [List.mem_cons, not_or]
    exact ⟨by decide, hdigits⟩
  · exact hdigits

theorem zero_notMem_printedNumber {text : Bytes} (h : 0 ∉ text) : 0 ∉ printedNumber text :=
  fun hmem => h (List.mem_of_mem_take hmem)

theorem zero_notMem_appendNumber {text : Bytes} (h : 0 ∉ text) : 0 ∉ appendNumber text := by
  have hparens : 0 ∉ lit "(" ∧ 0 ∉ lit ")" := by decide
  unfold appendNumber
  split_ifs
  · rw [List.mem_append, List.mem_append, or_iff_left hparens.2, or_iff_right hparens.1]
    exact h
  · exact h

/-- A date or a time in quotes, of which the buffer may cut off the end. -/
theorem zero_notMem_printedString {s t : Bytes} (hs : ∀ c ∈ s, isDateChar c = true) (ht : 0 ∉ t) :
    0 ∉ snprintf paramTextSize (lit "'" ++ s ++ t) := by
  intro hmem
  have hquote : 0 ∉ lit "'" := by decide
  have hmem := List.mem_of_mem_take hmem
  rw [List.mem_append, List.mem_append, or_iff_left ht, or_iff_right hquote] at hmem
  exact absurd (hs 0 hmem) (by decide)

theorem zero_notMem_hexByte (c : UInt8) : 0 ∉ hexByte c := by
  apply forall_byte (P := fun c => 0 ∉ hexByte c)
  decide +kernel

theorem zero_notMem_appendBinaryLiteral (bytes : Bytes) : 0 ∉ appendBinaryLiteral bytes := by
  have hquotes : 0 ∉ lit "X'" ∧ 0 ∉ lit "'" := by decide
  rw [appendBinaryLiteral, List.mem_append, List.mem_append, or_iff_left hquotes.2,
    or_iff_right hquotes.1, List.mem_flatMap]
  rintro ⟨c, -, hc⟩
  exact zero_notMem_hexByte c hc

/-- A literal holds no NUL byte unless its value does. -/
theorem zero_notMem_literal {param : BoundParam} {literal : Bytes} (hclean : param.NulFree)
    (h : appendParamLiteral param = .ok literal) : 0 ∉ literal := by
  rcases appendParamLiteral_cases h with ⟨-, rfl⟩ | ⟨value, hbuffer, -, h⟩
  · decide
  unfold BoundParam.NulFree at hclean
  rw [hbuffer] at hclean
  cases value with
  | char memory =>
    rw [zero_mem_appendCharLiteral h]
    exact hclean
  | wchar | other => cases h
  | float printed | double printed =>
    cases h
    exact zero_notMem_appendNumber (zero_notMem_printedNumber hclean)
  | slong n | sshort n | stinyint n | sbigint n =>
    cases h
    exact zero_notMem_appendNumber (zero_notMem_printedNumber (zero_notMem_intText _))
  | ulong n | ushort n | utinyint n | ubigint n =>
    cases h
    exact zero_notMem_printedNumber fun h0 => absurd (isDigit_of_mem_natText h0) (by decide)
  | bit n =>
    cases h
    split_ifs <;> decide
  | binary memory =>
    cases h
    exact zero_notMem_appendBinaryLiteral _
  | date year month day =>
    cases h
    exact zero_notMem_printedString (dateChar_dateText year month day) (by decide)
  | time hour minute second =>
    cases h
    exact zero_notMem_printedString (dateChar_timeText hour minute second) (by decide)
  | timestamp year month day hour minute second fraction =>
    cases h
    have hstring := zero_notMem_printedString (t := lit "'::TIMESTAMP_NTZ")
      (dateChar_timestamp year month day hour minute second fraction.toNat) (by decide)
    simp only [List.append_assoc] at hstring ⊢
    exact hstring

/-! ## Which statements are handed on -/

section

variable {params : List BoundParam} {sql result : Bytes}

theorem bound_of_literal {param : BoundParam} {literal : Bytes}
    (h : appendParamLiteral param = .ok literal) : param.bound = true := by
  by_contra hbound
  unfold appendParamLiteral at h
  rw [Bool.not_eq_true] at hbound
  rw [hbound] at h
  cases h

/-- What is substituted has the literals of the parameters in the places of the markers. -/
theorem exists_literals (hclean : ∀ param ∈ params, param.NulFree) (hsql : 0 ∉ sql)
    (h : substituteParams params sql = .ok result) :
    ∃ literals, Rendered (params.take (countPlaceholders sql)) literals ∧
      literals.length = countPlaceholders sql ∧
      cstr result = (fill (fun literal => [literal]) (segments flSqlSkip sql) literals).flatten := by
  obtain ⟨literals, hrendered, hcount, rfl⟩ := substituteParamsFrom_fill sql.length le_rfl h
  have h0 : 0 ∉ (fill (fun literal => [literal]) (segments flSqlSkip sql) literals).flatten := by
    rw [mem_fill hcount, or_iff_right (notMem_segment hsql)]
    rintro ⟨literal, hmem, hzero⟩
    obtain ⟨i, hi, rfl⟩ := List.getElem_of_mem hmem
    have hi' := hrendered.length_eq ▸ hi
    exact zero_notMem_literal (hclean _ (List.mem_of_mem_take (List.getElem_mem hi')))
      (hrendered.get hi' hi) hzero
  rw [cstr_eq_self h0, countPlaceholders_eq]
  exact ⟨literals, hrendered, hcount, rfl⟩

theorem renders_of_rendered {literals : List Bytes} {k : ℕ} (h : Rendered (params.take k) literals)
    (hlength : literals.length = k) : ∀ i < k, Renders params i := by
  intro i hi
  have hi' : i < (params.take k).length := by rw [h.length_eq, hlength]; exact hi
  have hliteral := h.get hi' (hlength.symm ▸ hi)
  rw [List.get_eq_getElem, List.getElem_take] at hliteral
  exact ⟨_, _, List.getElem?_eq_getElem _, bound_of_literal hliteral, hliteral⟩

theorem substituteParams_of_renders (h : ∀ i < countPlaceholders sql, Renders params i) :
    ∃ result, substituteParams params sql = .ok result := by
  rw [countPlaceholders_eq] at h
  refine exists_substituteParamsFrom sql.length le_rfl (not_lt.1 fun hlt => ?_) fun param hparam => ?_
  · obtain ⟨param, -, hparam, -⟩ := h _ hlt
    rw [List.getElem?_eq_none le_rfl] at hparam
    cases hparam
  · obtain ⟨i, hi, rfl⟩ := List.getElem_of_mem hparam
    rw [List.length_take, lt_min_iff] at hi
    obtain ⟨param, literal, hparam, -, hliteral⟩ := h i hi.1
    rw [List.getElem?_eq_getElem hi.2] at hparam
    cases hparam
    exact ⟨literal, by rw [List.getElem_take]; exact hliteral⟩

end

/-- What `run_sql` is handed, it does not just return from. -/
theorem runSql_ne_pure (stmt : Stmt) (sql : Bytes) (dbc : Dbc) (a : Except Diag Unit × Stmt × Dbc) :
    runSql stmt sql dbc ≠ pure a := by
  intro heq
  obtain ⟨t, stmt', d, hruns, -, e, he, -⟩ := exists_runs_runSql stmt sql dbc
  rw [heq] at hruns
  rw [(runs_pure_iff.1 hruns).1] at he
  cases he

theorem Executes.eq_executeSql {stmt : Stmt} {sql : Bytes} {dbc : Dbc}
    {call : Call (Except Diag Unit × Stmt × Dbc)} (h : Executes stmt sql dbc call) :
    call = executeSql stmt sql dbc ∧ 0 ∉ sql := by
  cases h with
  | direct text length htext =>
    subst htext
    exact ⟨rfl, zero_notMem_cstr _⟩
  | prepared hsql h0 =>
    unfold sqlExecute
    rw [hsql]
    exact ⟨rfl, h0⟩

theorem substitutes_iff {stmt : Stmt} {sql : Bytes} :
    (hasBoundParams stmt.params && 0 < countPlaceholders sql) = true ↔ Substitutes stmt sql := by
  rw [Bool.and_eq_true, decide_eq_true_eq, hasBoundParams, List.any_eq_true]
  rfl

theorem executeSql_unsubstituted {stmt : Stmt} {sql : Bytes} {dbc : Dbc} (h : ¬Substitutes stmt sql) :
    executeSql stmt sql dbc = runSql stmt sql dbc :=
  if_neg fun hsub => h (substitutes_iff.1 hsub)

/-- Where there is something to substitute, it is done or refused. -/
theorem executeSql_substitutes {stmt : Stmt} {sql : Bytes} (dbc : Dbc) (h : Substitutes stmt sql) :
    (∀ diag, substituteParams stmt.params sql = .error diag →
      executeSql stmt sql dbc = pure (.error diag, stmt, dbc)) ∧
    ∀ result, substituteParams stmt.params sql = .ok result →
      executeSql stmt sql dbc = runSql stmt (cstr result) dbc := by
  unfold executeSql
  rw [if_pos (substitutes_iff.2 h)]
  constructor
  · intro diag hresult
    rw [hresult]
  · intro result hresult
    rw [hresult]

theorem executes_all_or_nothing {stmt : Stmt} {sql : Bytes} {dbc : Dbc}
    {call : Call (Except Diag Unit × Stmt × Dbc)} (h : Executes stmt sql dbc call)
    (hclean : ∀ param ∈ stmt.params, param.NulFree) : AllOrNothing stmt sql dbc call := by
  obtain ⟨rfl, h0⟩ := h.eq_executeSql
  cases hresult : substituteParams stmt.params sql with
  | error diag =>
    have hnot : ¬∀ i < countPlaceholders sql, Renders stmt.params i := by
      intro hall
      obtain ⟨result, hok⟩ := substituteParams_of_renders hall
      rw [hresult] at hok
      cases hok
    have hpure : Substitutes stmt sql → executeSql stmt sql dbc = pure (.error diag, stmt, dbc) :=
      fun hsub => (executeSql_substitutes dbc hsub).1 diag hresult
    refine ⟨fun hsub => iff_of_false ?_ hnot, fun _ hall => absurd hall hnot,
      fun hsub _ => ⟨diag, hpure hsub⟩, executeSql_unsubstituted⟩
    rintro ⟨statement, heq⟩
    exact runSql_ne_pure stmt statement dbc _ (heq.symm.trans (hpure hsub))
  | ok result =>
    obtain ⟨literals, hrendered, hlength, hcstr⟩ := exists_literals hclean h0 hresult
    have hall := renders_of_rendered hrendered hlength
    have hrun : Substitutes stmt sql → executeSql stmt sql dbc = runSql stmt _ dbc := fun hsub =>
      hcstr ▸ (executeSql_substitutes dbc hsub).2 result hresult
    exact ⟨fun hsub => iff_of_true ⟨_, hrun hsub⟩ hall,
      fun hsub _ => ⟨literals, hrendered, hlength, hrun hsub⟩, fun _ hnot => absurd hall hnot,
      executeSql_unsubstituted⟩

/-- The second marker has no parameter; between quotes there is none. -/
theorem executes_all_or_nothing_partly :
    AllOrNothing (threeBytes "abc") (lit "SELECT ?, '?', ?") allocDbc
      (sqlExecDirect (threeBytes "abc") (lit "SELECT ?, '?', ?") 16 allocDbc) :=
  executes_all_or_nothing (.direct _ _ rfl) (by
    intro param hparam
    rw [List.mem_singleton.1 hparam]
    exact (by decide : 0 ∉ bufferText (lit "abc") 3))

end FrostlakeOdbc
