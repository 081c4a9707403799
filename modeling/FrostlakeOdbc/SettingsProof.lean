import FrostlakeOdbc.ConnectRule
import FrostlakeOdbc.FetchProof
import FrostlakeOdbc.Lib.Slots

/-!
# What the application set on a statement

The arrays of bound columns and parameters stand for maps from numbers to what is bound there, and the
statement for the `Settings` its calls made: the last prepared text, what is bound to each column and
parameter, the attributes. No execution, fetch or answer of the server touches them
(`settings_of_ran`), and an execution depends on nothing else of what the calls did
(`executes_of_ran`).
-/

namespace FrostlakeOdbc

open CString Exchange Client

/-! ## Settings -/

/-- A parameter as it is bound. -/
structure ParamBinding where
  sqlType : SqlType
  buffer : Option CValue
  strLenOrInd : Option ℤ

/-- What the application set on a statement: the maps are from the numbers of columns and parameters,
from 1 on. -/
structure Settings where
  prepared : Option Bytes
  columns : ℕ → Option Target
  params : ℕ → Option ParamBinding
  maxRows : ℕ
  multiStatementCount : ℤ
  rowsFetchedPtr : Bool
  rowStatusPtr : Bool

namespace Settings

/-- Nothing is set. -/
def start : Settings where
  prepared := none
  columns _ := none
  params _ := none
  maxRows := 0
  multiStatementCount := -1
  rowsFetchedPtr := false
  rowStatusPtr := false

variable (s : Settings)

def bindCol (number : UInt16) (target : Target) : Settings :=
  if number = 0 then s
  else
    let bound := if target.buffer then some target else none
    { s with columns := Function.update s.columns number.toNat bound }

def bindParameter (number : UInt16) (isInput : Bool) (binding : ParamBinding) : Settings :=
  if isInput = false ∨ number = 0 then s
  else { s with params := Function.update s.params number.toNat (some binding) }

/-- The application fills the buffers of a parameter. -/
def fillParam (number : UInt16) (value : CValue) (strLenOrInd : ℤ) : Settings :=
  let fill (binding : ParamBinding) : ParamBinding :=
    { binding with
      buffer := binding.buffer.map fun _ => value
      strLenOrInd := binding.strLenOrInd.map fun _ => strLenOrInd }
  let filled := (s.params number.toNat).map fill
  { s with params := Function.update s.params number.toNat filled }

def free : FreeOption → Settings
  | .unbind => { s with columns := fun _ => none }
  | .resetParams => { s with params := fun _ => none }
  | _ => s

def setAttr (attr : StmtAttr) (value : UInt64) : Settings :=
  match attr with
  | .maxRows => { s with maxRows := value.toNat }
  | .multiStatementCount =>
      if value.toInt64.toInt < -1 then s else { s with multiStatementCount := value.toInt64.toInt }
  | .rowsFetchedPtr => { s with rowsFetchedPtr := value ≠ 0 }
  | .rowStatusPtr => { s with rowStatusPtr := value ≠ 0 }
  | _ => s

/-- What a call sets. -/
def after : StmtCall → Settings
  | .prepare text length => { s with prepared := some (copySql text length) }
  | .bindCol number target => s.bindCol number target
  | .bindParameter number isInput sqlType buffer strLenOrInd =>
      s.bindParameter number isInput ⟨sqlType, buffer.map ParamValue.value, strLenOrInd⟩
  | .fillParam number value strLenOrInd => s.fillParam number value strLenOrInd
  | .freeStmt option _ => s.free option
  | .setStmtAttr attr value => s.setAttr attr value
  | _ => s

end Settings

/-- What a slot of the array of bound columns holds. -/
def BoundCol.held (col : BoundCol) : Option Target := if col.bound then some col.target else none

/-- What a slot of the array of parameters holds. -/
def BoundParam.held (param : BoundParam) : Option ParamBinding :=
  if param.bound then some ⟨param.sqlType, param.buffer, param.strLenOrInd⟩ else none

/-- The settings a statement stands for. -/
def Stmt.settings (stmt : Stmt) : Settings where
  prepared := stmt.preparedSql
  columns := Slots.numbered (Slots.view BoundCol.held stmt.boundCols)
  params := Slots.numbered (Slots.view BoundParam.held stmt.params)
  maxRows := stmt.maxRows
  multiStatementCount := stmt.multiStatementCount
  rowsFetchedPtr := stmt.rowsFetchedPtr
  rowStatusPtr := stmt.rowStatusPtr

/-! ## The calls that set something -/

section

variable (stmt : Stmt)

theorem exists_index {number : UInt16} (h : ¬number.toNat < 1) :
    ∃ i, number.toNat = i + 1 ∧ number ≠ 0 := by
  refine ⟨number.toNat - 1, by omega, ?_⟩
  rintro rfl
  exact h (by decide)

theorem eq_zero_of_toNat_lt_one {number : UInt16} (h : number.toNat < 1) : number = 0 :=
  UInt16.toNat_inj.1 (Nat.lt_one_iff.1 h)

theorem settings_sqlBindCol (number : UInt16) (target : Target) :
    (sqlBindCol stmt number target).2.settings = stmt.settings.bindCol number target := by
  unfold sqlBindCol Settings.bindCol
  by_cases hnumber : number.toNat < 1
  · rw [if_pos hnumber, if_pos (eq_zero_of_toNat_lt_one hnumber)]
  · obtain ⟨i, hi, hne⟩ := exists_index hnumber
    rw [if_neg hnumber, if_neg hne, hi]
    dsimp only [Stmt.settings]
    congr 1
    rw [← Slots.numbered_update]
    congr 1
    refine (Slots.view_modify_grow (v := BoundCol.held) (by rfl) stmt.boundCols i _).trans ?_
    congr 1
    cases target.buffer <;> rfl

theorem settings_sqlBindParameter (number : UInt16) (isInput : Bool) (sqlType : SqlType)
    (buffer : Option ParamValue) (strLenOrInd : Option ℤ) :
    (sqlBindParameter stmt number isInput sqlType buffer strLenOrInd).2.settings =
      stmt.settings.bindParameter number isInput
        ⟨sqlType, buffer.map ParamValue.value, strLenOrInd⟩ := by
  unfold sqlBindParameter Settings.bindParameter
  cases isInput with
  | false => rfl
  | true =>
    rw [Bool.not_true, if_neg Bool.false_ne_true]
    by_cases hnumber : number.toNat < 1
    · rw [if_pos hnumber, if_pos (.inr (eq_zero_of_toNat_lt_one hnumber))]
    · obtain ⟨i, hi, hne⟩ := exists_index hnumber
      rw [if_neg hnumber, if_neg (by simp [hne]), hi]
      dsimp only [Stmt.settings]
      congr 1
      rw [← Slots.numbered_update]
      congr 1
      exact Slots.view_set_grow (v := BoundParam.held) rfl stmt.params i _

theorem settings_fillParam (number : UInt16) (value : CValue) (strLenOrInd : ℤ) :
    (fillParam stmt number value strLenOrInd).settings =
      stmt.settings.fillParam number value strLenOrInd := by
  unfold fillParam Settings.fillParam
  by_cases hnumber : number.toNat < 1
  · rw [if_pos hnumber, eq_zero_of_toNat_lt_one hnumber]
    -- there is no parameter 0
    dsimp only [Stmt.settings]
    congr 1
    exact (Function.update_eq_self 0 _).symm
  · obtain ⟨i, hi, -⟩ := exists_index hnumber
    rw [if_neg hnumber, hi]
    dsimp only [Stmt.settings]
    congr 1
    rw [Nat.add_sub_cancel, Slots.view_modify, Slots.numbered_update]
    congr 1
    show Option.bind stmt.params[i]? _ = Option.map _ (Option.bind stmt.params[i]? BoundParam.held)
    cases stmt.params[i]? with
    | none => rfl
    | some param =>
      dsimp only [Option.bind_some, BoundParam.held]
      cases param.bound <;> rfl

theorem settings_sqlFreeStmt {option : FreeOption} {left : Stmt}
    (h : (sqlFreeStmt option stmt).2 = some left) : left.settings = stmt.settings.free option := by
  cases option with
  | close =>
    cases h
    rfl
  | unbind =>
    cases h
    dsimp only [Stmt.settings]
    rw [Slots.view_nil, Slots.numbered_none]
    rfl
  | resetParams =>
    cases h
    dsimp only [Stmt.settings]
    rw [Slots.view_nil, Slots.numbered_none]
    rfl
  | drop => cases h
  | other =>
    cases h
    rfl

theorem settings_sqlSetStmtAttr (attr : StmtAttr) (value : UInt64) :
    (sqlSetStmtAttr stmt attr value).2.settings = stmt.settings.setAttr attr value := by
  have honly : ∀ supported otherwise,
      (onlyValue value supported otherwise stmt).2.settings = stmt.settings := by
    intro supported otherwise
    unfold onlyValue
    split <;> rfl
  cases attr
  case maxRows => rfl
  case multiStatementCount =>
    unfold sqlSetStmtAttr Settings.setAttr
    dsimp only
    split <;> rfl
  case rowsFetchedPtr => rfl
  case rowStatusPtr => rfl
  case rowNumber => rfl
  case descriptor => rfl
  case ignored => rfl
  case other => rfl
  all_goals exact honly _ _

/-- What a call leaves of the statement, but for its results. -/
def Stmt.applied (stmt : Stmt) : StmtCall → Stmt
  | .prepare text length => sqlPrepare stmt text length
  | .bindCol number target => (sqlBindCol stmt number target).2
  | .bindParameter number isInput sqlType buffer strLenOrInd =>
      (sqlBindParameter stmt number isInput sqlType buffer strLenOrInd).2
  | .fillParam number value strLenOrInd => fillParam stmt number value strLenOrInd
  | .freeStmt option _ => (sqlFreeStmt option stmt).2.getD stmt
  | .setStmtAttr attr value => (sqlSetStmtAttr stmt attr value).2
  | _ => stmt

variable {stmt} in
theorem settings_applied (c : StmtCall) : (stmt.applied c).settings = stmt.settings.after c := by
  cases c
  case bindCol => exact settings_sqlBindCol stmt _ _
  case bindParameter => exact settings_sqlBindParameter stmt _ _ _ _ _
  case fillParam => exact settings_fillParam stmt _ _ _
  case setStmtAttr attr value => exact settings_sqlSetStmtAttr stmt attr value
  case freeStmt option kept =>
    show ((sqlFreeStmt option stmt).2.getD stmt).settings = _
    cases hleft : (sqlFreeStmt option stmt).2 with
    | none => cases option <;> first | exact absurd rfl kept | cases hleft
    | some left => exact settings_sqlFreeStmt stmt hleft
  all_goals rfl

/-! ## The calls that set nothing -/

theorem cleared_sqlFetch (beyond : Behind) :
    flStmtClearResults (sqlFetch beyond stmt).2 = flStmtClearResults stmt := by
  unfold sqlFetch
  split
  · rfl
  · dsimp only
    split <;> rfl

theorem cleared_sqlGetData (beyond : Behind) (number : UInt16) (target : Target) :
    flStmtClearResults (sqlGetData beyond stmt number target).2 = flStmtClearResults stmt := by
  unfold sqlGetData
  dsimp only
  split
  · rfl
  · split
    · rfl
    · split
      · rfl
      · by_cases hcol : stmt.getdataCol ≠ number.toNat
        · simp only [if_pos hcol]
          split <;> rfl
        · simp only [if_neg hcol]
          split <;> rfl

theorem cleared_sqlMoreResults :
    flStmtClearResults (sqlMoreResults stmt).2 = flStmtClearResults stmt := by
  unfold sqlMoreResults
  split
  · split <;> rfl
  · rfl

theorem cleared_sqlOutcome (sql : Bytes) (a : Result × Dbc) :
    flStmtClearResults (sqlOutcome stmt sql a).2.1 = flStmtClearResults stmt := by
  obtain ⟨result, d⟩ := a
  cases result with
  | error e => rfl
  | ok response =>
    unfold sqlOutcome
    dsimp only
    split <;> rfl

/-- A call that sends requests touches the results only. -/
def KeepsSettings (stmt : Stmt) (p : Call (Except Diag Unit × Stmt × Dbc)) : Prop :=
  ∀ t a, Runs p t a → flStmtClearResults a.2.1 = flStmtClearResults stmt

variable {stmt}

theorem keepsSettings_pure {a : Except Diag Unit × Stmt × Dbc}
    (h : flStmtClearResults a.2.1 = flStmtClearResults stmt) : KeepsSettings stmt (pure a) := by
  intro t b hrun
  rw [(runs_pure_iff.1 hrun).2]
  exact h

theorem keepsSettings_executeSql (sql : Bytes) (dbc : Dbc) :
    KeepsSettings stmt (executeSql stmt sql dbc) := by
  have hrun : ∀ sql, KeepsSettings stmt (runSql stmt sql dbc) := by
    intro sql t a h
    rw [runSql_eq] at h
    obtain ⟨b, -, rfl⟩ := runs_map_iff.1 h
    exact cleared_sqlOutcome (flStmtClearResults stmt) sql b
  unfold executeSql
  split
  · cases substituteParams stmt.params sql with
    | error diag => exact keepsSettings_pure rfl
    | ok finalSql => exact hrun _
  · exact hrun sql

theorem keepsSettings_sqlExecute (dbc : Dbc) : KeepsSettings stmt (sqlExecute stmt dbc) := by
  unfold sqlExecute
  split
  · exact keepsSettings_pure rfl
  · exact keepsSettings_executeSql _ dbc

theorem keepsSettings_catalogResult (query : Bytes) (synth : ResultSet → ResultSet) (dbc : Dbc) :
    KeepsSettings stmt (catalogResult query synth stmt dbc) := by
  intro t a h
  obtain ⟨t₁, t₂, ⟨listed, d⟩, rfl, -, h⟩ := runs_bind_iff.1 h
  cases listed with
  | error diag => exact keepsSettings_pure rfl _ _ h
  | ok set => exact keepsSettings_pure rfl _ _ h

theorem keepsSettings_sqlTables (catalogName schemaName tableName tableType : CatalogArg) (dbc : Dbc) :
    KeepsSettings stmt (sqlTables catalogName schemaName tableName tableType stmt dbc) := by
  unfold sqlTables
  dsimp only
  split
  · exact keepsSettings_catalogResult _ _ dbc
  · exact keepsSettings_pure rfl
  · exact keepsSettings_catalogResult _ _ dbc

theorem cleared_exchanged {p : Call (Except Diag Unit × Stmt × Dbc)} (hp : KeepsSettings stmt p)
    {t : List (Request × HttpReply)} {a : StmtAnswer × Stmt × Dbc} (h : Runs (exchanged p) t a) :
    flStmtClearResults a.2.1 = flStmtClearResults stmt := by
  obtain ⟨b, hb, rfl⟩ := runs_map_iff.1 h
  exact hp t b hb

/-! ## Every call -/

/-- But for the results, a call leaves what it sets, whatever it exchanges with the server. -/
theorem cleared_run {dbc : Dbc} {c : StmtCall} {t : List (Request × HttpReply)}
    {a : StmtAnswer × Stmt × Dbc} (h : Runs (c.run stmt dbc) t a) :
    flStmtClearResults a.2.1 = flStmtClearResults (stmt.applied c) := by
  cases c
  case execDirect => exact cleared_exchanged (keepsSettings_executeSql _ dbc) h
  case execute => exact cleared_exchanged (keepsSettings_sqlExecute dbc) h
  case tables => exact cleared_exchanged (keepsSettings_sqlTables _ _ _ _ dbc) h
  case columns => exact cleared_exchanged (keepsSettings_catalogResult _ _ dbc) h
  all_goals obtain ⟨-, rfl⟩ := runs_pure_iff.1 h
  case fetch beyond => exact cleared_sqlFetch stmt beyond
  case fetchScroll beyond next =>
    cases next with
    | false => rfl
    | true => exact cleared_sqlFetch stmt beyond
  case getData beyond number target => exact cleared_sqlGetData stmt beyond number target
  case moreResults => exact cleared_sqlMoreResults stmt
  all_goals rfl

theorem settings_run {dbc : Dbc} {c : StmtCall} {t : List (Request × HttpReply)}
    {a : StmtAnswer × Stmt × Dbc} (h : Runs (c.run stmt dbc) t a) :
    a.2.1.settings = stmt.settings.after c :=
  (congrArg Stmt.settings (cleared_run h)).trans (settings_applied c)

/-! ## The array of parameters -/

/-- The array of parameters is the only one of its map. -/
def Stmt.ParamsCanonical (stmt : Stmt) : Prop :=
  Slots.Canonical BoundParam.held unboundParam stmt.params

theorem BoundParam.held_eq_none {param : BoundParam} : param.held = none ↔ param.bound = false := by
  unfold BoundParam.held
  cases param.bound <;> simp

theorem paramsCanonical_applied (h : stmt.ParamsCanonical) (c : StmtCall) :
    (stmt.applied c).ParamsCanonical := by
  cases c
  case bindParameter number isInput sqlType buffer strLenOrInd =>
    dsimp only [Stmt.applied]
    unfold sqlBindParameter
    split
    · exact h
    · split
      · exact h
      · rename_i hnumber
        obtain ⟨i, hi, -⟩ := exists_index hnumber
        rw [hi]
        exact Slots.Canonical.set_grow h i (Option.some_ne_none _)
  case fillParam number value strLenOrInd =>
    dsimp only [Stmt.applied]
    unfold fillParam
    dsimp only
    split
    · exact h
    · apply Slots.Canonical.modify h
      · intro param hparam hfilled
        rw [BoundParam.held_eq_none] at hfilled
        exact hparam (BoundParam.held_eq_none.2 hfilled)
      · rfl
  case freeStmt option kept =>
    cases option
    case resetParams => exact Slots.canonical_nil _ _
    all_goals exact h
  case bindCol number target =>
    dsimp only [Stmt.applied]
    unfold sqlBindCol
    split <;> exact h
  case setStmtAttr attr value =>
    have hparams : (sqlSetStmtAttr stmt attr value).2.params = stmt.params := by
      cases attr <;> first | rfl | (dsimp only [sqlSetStmtAttr, onlyValue]; split <;> rfl)
    dsimp only [Stmt.applied, Stmt.ParamsCanonical]
    rw [hparams]
    exact h
  all_goals exact h

end

/-! ## Every history -/

/-- A statement allocated and then called so, each time on the connection as it stood. -/
inductive Stmt.Ran : List StmtCall → Stmt → Prop where
  | alloc {dbc : Dbc} {stmt : Stmt} (h : allocStmt dbc = .ok stmt) : Stmt.Ran [] stmt
  | call {calls : List StmtCall} {stmt stmt' : Stmt} {dbc dbc' : Dbc} {c : StmtCall}
      {t : List (Request × HttpReply)} {answer : StmtAnswer} (h : stmt.Ran calls)
      (hrun : Runs (c.run stmt dbc) t (answer, stmt', dbc')) : Stmt.Ran (calls ++ [c]) stmt'

/-- What the calls of a history set. -/
def settingsOf (calls : List StmtCall) : Settings := calls.foldl Settings.after .start

theorem eq_freshStmt {dbc : Dbc} {stmt : Stmt} (h : allocStmt dbc = .ok stmt) : stmt = freshStmt := by
  unfold allocStmt at h
  split at h
  · cases h
  · cases h
    rfl

theorem Stmt.Ran.settings_eq {calls : List StmtCall} {stmt : Stmt} (h : stmt.Ran calls) :
    stmt.settings = settingsOf calls := by
  induction h with
  | alloc h =>
    rw [eq_freshStmt h]
    dsimp only [Stmt.settings, freshStmt]
    rw [Slots.view_nil, Slots.numbered_none, Slots.view_nil, Slots.numbered_none]
    rfl
  | call _ hrun ih =>
    rw [settings_run hrun, ih]
    unfold settingsOf
    rw [List.foldl_append]
    rfl

theorem Stmt.Ran.paramsCanonical {calls : List StmtCall} {stmt : Stmt} (h : stmt.Ran calls) :
    stmt.ParamsCanonical := by
  induction h with
  | alloc h =>
    rw [eq_freshStmt h]
    exact Slots.canonical_nil _ _
  | @call _ stmt stmt' _ _ c _ _ _ hrun ih =>
    have hcleared : flStmtClearResults stmt' = flStmtClearResults (stmt.applied c) := cleared_run hrun
    show Slots.Canonical BoundParam.held unboundParam (flStmtClearResults stmt').params
    rw [hcleared]
    exact paramsCanonical_applied ih c

/-- Statements with the same parameters set have the same array of them. -/
theorem params_eq_of_ran {calls calls' : List StmtCall} {stmt other : Stmt} (h : stmt.Ran calls)
    (hother : other.Ran calls') (hparams : (settingsOf calls).params = (settingsOf calls').params) :
    stmt.params = other.params := by
  apply Slots.Canonical.eq_of_view_eq h.paramsCanonical hother.paramsCanonical
  · intro x y hheld hsome
    obtain ⟨xbound, xtype, xbuffer, xind⟩ := x
    obtain ⟨ybound, ytype, ybuffer, yind⟩ := y
    unfold BoundParam.held at hheld hsome
    cases xbound <;> cases ybound <;> simp_all
  · apply Slots.numbered_injective
    have hleft := congrArg Settings.params h.settings_eq
    have hright := congrArg Settings.params hother.settings_eq
    exact hleft.trans (hparams.trans hright.symm)

theorem columns_settings {stmt : Stmt} {i : ℕ} {bound : BoundCol} (hcol : stmt.boundCols[i]? = some bound)
    (hbound : bound.bound = true) : stmt.settings.columns (i + 1) = some bound.target := by
  show stmt.boundCols[i]?.bind BoundCol.held = _
  rw [hcol]
  exact if_pos hbound

/-- After any calls, with any answers of any server, a statement stands for what they set, and a fetch
converts to the buffers that are bound so. -/
theorem settings_of_ran {calls : List StmtCall} {stmt : Stmt} (h : stmt.Ran calls) :
    stmt.settings = settingsOf calls ∧
      ∀ beyond i one, (i, one) ∈ (sqlFetch beyond stmt).1.columns →
        ∃ row column cell target, (settingsOf calls).columns (i + 1) = some target ∧
          one = convertCell (beyond row i) column cell target none := by
  refine ⟨h.settings_eq, fun beyond i one hmem => ?_⟩
  obtain ⟨set, hset, hrow⟩ := onRow_of_mem_columns hmem
  rw [columns_sqlFetch hset hrow] at hmem
  obtain ⟨k, bound, column, cell, hk, hzip, hbound, -, hone⟩ := cell_of_mem_deliverColumns hmem
  rw [Nat.zero_add] at hk
  subst hk
  obtain ⟨hcol, -⟩ := List.getElem?_zip_eq_some.1 hzip
  refine ⟨stmt.currentRow + 1, column, cell, bound.target, ?_, hone⟩
  rw [← h.settings_eq]
  exact columns_settings hcol hbound

theorem settings_of_ran_executed :
    executedBound.settings = settingsOf
        [.execDirect (lit "SELECT n FROM t") sqlNts, .bindCol 1 charTarget] ∧
      ∀ beyond i one, (i, one) ∈ (sqlFetch beyond executedBound).1.columns →
        ∃ row column cell target,
          (settingsOf [.execDirect (lit "SELECT n FROM t") sqlNts, .bindCol 1 charTarget]).columns
            (i + 1) = some target ∧
          one = convertCell (beyond row i) column cell target none := by
  obtain ⟨t, answer, dbc, hrun, -⟩ := exists_run_executed
  have halloc : Stmt.Ran [] freshStmt := .alloc (show allocStmt liveDbc = .ok freshStmt from rfl)
  exact settings_of_ran ((halloc.call hrun).call run_executedBound)

/-! ## What an execution depends on -/

/-- The results of a statement alone. -/
def Stmt.results (stmt : Stmt) : Stmt :=
  { stmt with
    preparedSql := none
    boundCols := []
    params := []
    multiStatementCount := -1
    maxRows := 0
    rowsFetchedPtr := false
    rowStatusPtr := false }

/-- What an execution comes to: what it answers, the results if it succeeds, and the connection. -/
def seen (a : Except Diag Unit × Stmt × Dbc) : Except Diag Unit × Option Stmt × Dbc :=
  (a.1, if a.1.isOk then some a.2.1.results else none, a.2.2)

theorem seen_executeSql {stmt other : Stmt} (hparams : stmt.params = other.params)
    (hcount : stmt.multiStatementCount = other.multiStatementCount) (sql : Bytes) (dbc : Dbc) :
    seen <$> executeSql stmt sql dbc = seen <$> executeSql other sql dbc := by
  have hrun : ∀ sql, seen <$> runSql stmt sql dbc = seen <$> runSql other sql dbc := by
    intro sql
    rw [runSql_eq, runSql_eq, ← comp_map, ← comp_map, hcount]
    congr 1
    funext ⟨result, d⟩
    cases result with
    | error e => rfl
    | ok response =>
      dsimp only [Function.comp, sqlOutcome]
      cases response.errorMessage <;> rfl
  unfold executeSql
  rw [hparams]
  split
  · cases substituteParams other.params sql with
    | error diag => rfl
    | ok finalSql => exact hrun _
  · exact hrun sql

/-- `SQLExecute` runs the text that was prepared last, whatever was called in between, as
`SQLExecDirect` of any statement with the same parameters runs it. -/
theorem executes_of_ran {calls calls' : List StmtCall} {stmt other : Stmt} (h : stmt.Ran calls)
    (hother : other.Ran calls') (hparams : (settingsOf calls).params = (settingsOf calls').params)
    (hcount : (settingsOf calls).multiStatementCount = (settingsOf calls').multiStatementCount)
    (dbc : Dbc) :
    ((settingsOf calls).prepared = none →
      sqlExecute stmt dbc =
        pure (.error (flDiagSet "HY010" (lit "No prepared statement")), stmt, dbc)) ∧
    ∀ text length, (settingsOf calls).prepared = some (copySql text length) →
      seen <$> sqlExecute stmt dbc = seen <$> sqlExecDirect other text length dbc := by
  have hprepared : stmt.preparedSql = (settingsOf calls).prepared :=
    congrArg Settings.prepared h.settings_eq
  have hcount : stmt.multiStatementCount = other.multiStatementCount :=
    (congrArg Settings.multiStatementCount h.settings_eq).trans
      (hcount.trans (congrArg Settings.multiStatementCount hother.settings_eq).symm)
  constructor
  · intro hnone
    unfold sqlExecute
    rw [hprepared, hnone]
  · intro text length hsome
    unfold sqlExecute
    rw [hprepared, hsome]
    exact seen_executeSql (params_eq_of_ran h hother hparams) hcount _ dbc

/-- A call that sends nothing, at the end of a history. -/
theorem Stmt.Ran.local {calls : List StmtCall} {stmt stmt' : Stmt} {c : StmtCall} {answer : StmtAnswer}
    (h : stmt.Ran calls) (hrun : c.run stmt liveDbc = pure (answer, stmt', liveDbc)) :
    stmt'.Ran (calls ++ [c]) := by
  have hruns : Runs (c.run stmt liveDbc) [] (answer, stmt', liveDbc) := by
    rw [hrun]
    exact .done _
  exact h.call hruns

/-- A `SQL_C_SLONG` parameter. -/
def bindLong (number : UInt16) (n : Int32) : StmtCall :=
  .bindParameter number true .integer (some (.typed (.slong n))) none

/-- A text that is prepared before its parameter is bound, and a statement that is bound another
parameter first. -/
theorem executes_of_ran_prepared : ∃ stmt other : Stmt,
    stmt.params.length = 1 ∧ other.preparedSql = none ∧
    seen <$> sqlExecute stmt liveDbc =
      seen <$> sqlExecDirect other (lit "SELECT ?") sqlNts liveDbc := by
  have halloc : Stmt.Ran [] freshStmt := .alloc (show allocStmt liveDbc = .ok freshStmt from rfl)
  have hstmt := (halloc.local (c := .prepare (lit "SELECT ?") sqlNts) rfl).local (c := bindLong 1 7) rfl
  have hother := ((halloc.local (c := bindLong 2 5) rfl).local (c := .freeStmt .resetParams (by decide))
    rfl).local (c := bindLong 1 7) rfl
  exact ⟨_, _, rfl, rfl, (executes_of_ran hstmt hother rfl rfl liveDbc).2 (lit "SELECT ?") sqlNts rfl⟩

end FrostlakeOdbc
