import FrostlakeOdbc.ConnectRule
import FrostlakeOdbc.ConvertForm
import FrostlakeOdbc.CursorProof
import FrostlakeOdbc.JsonAccept
import FrostlakeOdbc.Lib.JsonSize
import FrostlakeOdbc.ResponseProof
import FrostlakeOdbc.Statement

/-!
# What every call keeps of a statement

`Stmt.WellFormed` ties the fields of a statement to one another: its results are rectangular, its
cursor is within them, and its row count is that of the current set. An allocated statement has it and
every call keeps it, against any server whose answers an `int` can count (`wellFormed_of_reached`), so
that no call reads a cell that is not there.
-/

namespace FrostlakeOdbc

open CString JsonText Exchange Client

/-! ## Rectangular result sets -/

/-- A result set whose cells are its rows one after the other, numbered by an `int`. -/
structure ResultSet.Rectangular (set : ResultSet) : Prop extends set.Counted where
  columns : set.columnCount = set.columns.length
  cells : set.cells.length = set.rowCount.toNat * set.columns.length
  cells_lt : set.cells.length < 2 ^ 31

/-- The index that is computed for a cell, which is an `int`, is that of a cell. -/
structure ResultSet.Indexes (set : ResultSet) (row : ℤ) (i : ℕ) : Prop where
  nonneg : 0 ≤ row * set.columnCount + i
  lt : row * set.columnCount + i < 2 ^ 31
  inside : (row * set.columnCount + i).toNat < set.cells.length

/-- Every cell of a row is there. -/
theorem ResultSet.Rectangular.exists_cell {set : ResultSet} (h : set.Rectangular) {row : ℤ} {i : ℕ}
    (hrow : 0 ≤ row ∧ row < set.rowCount) (hi : i < set.columns.length) :
    set.Indexes row i ∧ ∃ cell, set.cellAt row i = some cell := by
  obtain ⟨r, rfl⟩ := Int.eq_ofNat_of_zero_le hrow.1
  have hlt : r < set.rowCount.toNat := by have := hrow.2; omega
  have hbound : r * set.columns.length + i < set.rowCount.toNat * set.columns.length :=
    calc r * set.columns.length + i < (r + 1) * set.columns.length := by rw [Nat.succ_mul]; omega
      _ ≤ set.rowCount.toNat * set.columns.length := Nat.mul_le_mul_right _ hlt
  have hsum : (r : ℤ) * set.columnCount + i = ((r * set.columns.length + i : ℕ) : ℤ) := by
    rw [h.columns]
    push_cast
    rfl
  have hindex : ((r : ℤ) * set.columnCount + i).toNat < set.cells.length := by
    rw [hsum, h.cells, Int.toNat_natCast]
    exact hbound
  have hcells := h.cells_lt
  exact ⟨⟨by omega, by omega, hindex⟩, _, List.getElem?_eq_getElem hindex⟩

/-- The column a number stands for is one of the set's. -/
theorem columnAt_lt {set : ResultSet} {number : UInt16} {column : Column}
    (h : columnAt set number = some column) :
    1 ≤ number.toNat ∧ number.toNat - 1 < set.columns.length := by
  unfold columnAt at h
  split at h
  · cases h
  · next hnot =>
    have hlt := (List.getElem?_eq_some_iff.1 h).1
    omega

/-- A set put together from rows that are as long as its columns. -/
theorem rectangular_flSynthNew {columns : List Column} {rows : List (List Cell)}
    (hlt : rows.length < 2 ^ 31) (hrows : ∀ row ∈ rows, row.length = columns.length)
    (hcells : rows.length * columns.length < 2 ^ 31) : (flSynthNew columns rows).Rectangular := by
  have hlength : rows.flatten.length = rows.length * columns.length := by
    rw [List.length_flatten, List.map_congr_left hrows, List.map_const', List.sum_replicate_nat]
  refine ⟨⟨Int.natCast_nonneg _, ?_⟩, rfl, ?_, ?_⟩
  · show (rows.length : ℤ) < 2 ^ 31
    exact_mod_cast hlt
  · show rows.flatten.length = (rows.length : ℤ).toNat * columns.length
    rw [hlength, Int.toNat_natCast]
  · show rows.flatten.length < 2 ^ 31
    rw [hlength]
    exact hcells

/-! ## Answers that can be counted -/

/-- A value whose text is short enough for an `int` to count what is in it. -/
abbrev Small (v : Value) : Prop := SpelledIn LooseNumber Reads (2 ^ 31 - 1) v

/-- A set with few enough rows for an `int` to number their cells, also once a catalog function has
laid them out in its own columns. -/
structure ResultSet.Few (set : ResultSet) : Prop where
  cells : set.rowCount * set.columnCount < 2 ^ 31
  listed : set.rowCount * columnsColumns.length < 2 ^ 31

instance : DecidablePred ResultSet.Few := fun _ =>
  decidable_of_iff (_ ∧ _) ⟨fun h => ⟨h.1, h.2⟩, fun h => ⟨h.cells, h.listed⟩⟩

/-- An answer that an `int` can count, and the cells of whose sets it can number. -/
def HttpReply.Bounded : HttpReply → Prop
  | .failed _ => True
  | .answered _ body => body.length < 2 ^ 31 ∧
      ∀ root ∈ flJsonParse (cstr body), ∀ set ∈ (decodeResponse root).sets, set.Few

instance : DecidablePred HttpReply.Bounded
  | .failed _ => inferInstanceAs (Decidable True)
  | .answered _ body => inferInstanceAs (Decidable (body.length < 2 ^ 31 ∧
      ∀ root ∈ flJsonParse (cstr body), ∀ set ∈ (decodeResponse root).sets, set.Few))

theorem small_of_flJsonParse {body : Bytes} (hbody : body.length < 2 ^ 31) {root : Value}
    (h : flJsonParse (cstr body) = some root) : Small root := by
  have hle : (cstr body).length ≤ body.length := (List.takeWhile_prefix _).length_le
  obtain ⟨depth, s, hs, hs'⟩ := SpelledIn.of_padded (flJsonParse_eq_some_iff.1 h)
  exact ⟨depth, s, hs, by omega⟩

/-- The values of an optional node. -/
def SmallNode (node : Option Value) : Prop := ∀ v, node = some v → Small v

theorem smallNode_flJsonGet {node : Option Value} (h : SmallNode node) (key : Bytes) :
    SmallNode (flJsonGet node key) := by
  intro v hv
  match node, h with
  | some (.object ms), h =>
    obtain ⟨m, hm, rfl⟩ := Option.map_eq_some_iff.1 hv
    exact (h _ rfl).object.2 m (List.mem_of_find?_eq_some hm)
  | none, _ => cases hv
  | some .null, _ => cases hv
  | some (.bool _), _ => cases hv
  | some (.number _), _ => cases hv
  | some (.string _), _ => cases hv
  | some (.array _), _ => cases hv

theorem smallNode_flJsonAt {node : Option Value} (h : SmallNode node) (index : ℕ) :
    SmallNode (flJsonAt node index) := by
  intro v hv
  match node, h with
  | some (.array vs), h => exact (h _ rfl).array.2 v (List.mem_of_getElem? hv)
  | none, _ => cases hv
  | some .null, _ => cases hv
  | some (.bool _), _ => cases hv
  | some (.number _), _ => cases hv
  | some (.string _), _ => cases hv
  | some (.object _), _ => cases hv

theorem childCount_bounds {node : Option Value} (h : SmallNode node) :
    0 ≤ childCount node ∧ childCount node < 2 ^ 31 := by
  have hcount : ∀ n : ℕ, n ≤ 2 ^ 31 - 1 → 0 ≤ toInt n ∧ toInt n < 2 ^ 31 := by
    intro n hn
    rw [toInt_of_lt (by omega)]
    omega
  unfold childCount
  split
  · exact hcount _ (h _ rfl).array.1
  · exact hcount _ (h _ rfl).object.1
  · exact ⟨le_rfl, by decide⟩

theorem rectangular_decodeSet {node : Option Value} (h : SmallNode node)
    (hfew : (decodeSet node).Few) : (decodeSet node).Rectangular := by
  have hcolumns := childCount_bounds (smallNode_flJsonGet h (lit "columns"))
  have hrows := childCount_bounds (smallNode_flJsonGet h (lit "rows"))
  have hcount : (decodeSet node).columnCount = (decodeSet node).columns.length := by
    show childCount _ = ((decodeColumns _).length : ℤ)
    rw [decodeColumns, List.length_map, List.length_range, Int.toNat_of_nonneg hcolumns.1]
  have hcells : (decodeSet node).cells.length =
      (decodeSet node).rowCount.toNat * (decodeSet node).columns.length := by
    show (decodeRows _ _).length = _
    rw [decodeRows, List.length_flatMap]
    simp only [List.length_mapIdx, List.map_const', List.sum_replicate_nat, List.length_range]
    rfl
  refine ⟨⟨hrows.1, hrows.2⟩, hcount, hcells, ?_⟩
  have hlt := hfew.cells
  have hnonneg : ((decodeSet node).rowCount.toNat : ℤ) = (decodeSet node).rowCount :=
    Int.toNat_of_nonneg hrows.1
  rw [hcount, ← hnonneg] at hlt
  rw [hcells]
  exact_mod_cast hlt

/-- The sets of a response are rectangular, and of few rows. -/
def Response.Rectangular (response : Response) : Prop :=
  ∀ set ∈ response.sets, set.Rectangular ∧ set.Few

theorem rectangular_decodeResponse {root : Value} (h : Small root)
    (hfew : ∀ set ∈ (decodeResponse root).sets, set.Few) : (decodeResponse root).Rectangular := by
  have hroot : SmallNode (some root) := fun v hv => Option.some.inj hv ▸ h
  intro set hset
  have hset' := hfew set hset
  unfold decodeResponse at hset
  split at hset
  · exact absurd hset List.not_mem_nil
  · obtain ⟨i, -, rfl⟩ := List.mem_map.1 hset
    exact ⟨rectangular_decodeSet (smallNode_flJsonAt (smallNode_flJsonGet hroot _) i) hset', hset'⟩

/-! ## What an execution hands back -/

/-- The monitor under which the answers can be counted. -/
def boundedAnswers : Monitor Request HttpReply Unit where
  next _ _ _ := ()
  allows _ _ := True
  admits _ _ reply := reply.Bounded

theorem admits_boundedAnswers {t : List (Request × HttpReply)} (h : ∀ e ∈ t, e.2.Bounded) :
    boundedAnswers.Admits () t := Monitor.admits_of_forall (fun _ => h) ()

/-- A response that is handed back as a success is rectangular. -/
def Result.Rectangular (result : Result) : Prop :=
  ∀ response, result = .ok response → response.errorMessage = none → response.Rectangular

theorem Result.rectangular_error (e : TransportError) : Result.Rectangular (.error e) := by
  intro response h
  cases h

theorem Result.rectangular_refused (message : Bytes) :
    Result.Rectangular (scopeFailed (.refused message)) := by
  intro response h hok
  cases h
  cases hok

section

variable {dbc : Dbc}

/-- What holds of the connection along an execution. -/
def SameSettings (dbc d : Dbc) (_ : Unit) : Prop := d.settings = dbc.settings

def ResultRectangular (a : Result × Dbc) (_ : Unit) : Prop := a.1.Rectangular

theorem afterLoss_rectangular {d : Dbc} (h : SameSettings dbc d ()) :
    AfterLoss (fun _ => SameSettings dbc) ResultRectangular d () :=
  ⟨fun e _ => Result.rectangular_error e, fun _ _ => (settings_forgetSession d).trans h⟩

theorem rectangular_of_answerTo {p : Post} {reply : HttpReply} {root : Value}
    (hbounded : reply.Bounded) (h : answerTo p reply = some root) :
    (decodeResponse root).Rectangular := by
  cases reply with
  | failed message => cases h
  | answered status body =>
    have hparse := (Option.filter_eq_some_iff.1 h).1
    exact rectangular_decodeResponse (small_of_flJsonParse hbounded.1 hparse) (hbounded.2 root hparse)

theorem scopeKeeps_rectangular (scope : List Bytes) :
    ScopeKeeps boundedAnswers (fun _ => SameSettings dbc) ResultRectangular scope := by
  intro i sql d _ _ hd
  refine ⟨trivial, fun reply _ => ?_⟩
  refine afterScope_readReply (p := ⟨.scope i, d, sql, -1⟩) ?_ ?_ ?_
  · exact fun _ => ⟨afterLoss_rectangular hd, fun e _ => Result.rectangular_error e⟩
  · exact fun root _ _ => (settings_absorbed _ root).trans hd
  · exact fun root _ _ message => Result.rectangular_refused message

theorem statementKeeps_rectangular (sql : Bytes) (count : ℤ) (flags : ExecFlags) :
    StatementKeeps boundedAnswers (fun _ => SameSettings dbc) (SameSettings dbc) ResultRectangular sql
      count flags := by
  intro d _ hd
  refine ⟨trivial, fun reply hbounded => ?_⟩
  refine afterStatement_readReply (p := ⟨.statement flags, d, sql, count⟩) ?_ ?_
  · exact fun _ => ⟨afterLoss_rectangular hd, fun e _ => Result.rectangular_error e⟩
  · intro root hans response h _
    cases h
    exact rectangular_of_answerTo hbounded hans

/-- What an execution hands back can be counted. -/
theorem holds_rectangular (dbc : Dbc) (sql : Bytes) (count : ℤ) (flags : ExecFlags) :
    boundedAnswers.Holds (flProtoExecuteAs dbc sql count flags) ResultRectangular () :=
  holds_flProtoExecuteAs (scopeKeeps_rectangular _) (fun _ _ hd => hd)
    (statementKeeps_rectangular sql count flags) (fun _ _ hd => hd) (fun _ => rfl) fun _ => rfl

end

/-! ## The invariant -/

/-- The number of rows a set counts as: those its report says were affected, or its own. -/
def countedRows (set : ResultSet) : ℤ :=
  if 0 ≤ flRowsAffected set then flRowsAffected set else set.rowCount

/-- What `SQLRowCount` has to say of a statement. -/
def Stmt.reportedRows (stmt : Stmt) : ℤ :=
  match stmt.synth, stmt.response with
  | some set, _ => set.rowCount
  | none, some response => ((response.sets[stmt.currentSet]?).map countedRows).getD 0
  | none, none => -1

/-- The results of a statement and the place in them fit together. -/
structure Stmt.Consistent (stmt : Stmt) : Prop where
  response : ∀ response, stmt.response = some response → response.Rectangular
  synth : ∀ set, stmt.synth = some set → set.Rectangular ∧ stmt.response = none
  currentSet : stmt.currentSet = 0 ∨
    ∃ response, stmt.response = some response ∧ stmt.currentSet < response.sets.length
  /-- Without a result set there is no row. -/
  noSet : flStmtCurrentSet stmt = none → stmt.currentRow = -1
  /-- The cursor is before the first row, on a row, or behind the last one. -/
  row : ∀ set, flStmtCurrentSet stmt = some set → -1 ≤ stmt.currentRow ∧ stmt.currentRow ≤ set.rowCount
  rowCount : stmt.rowCount = stmt.reportedRows
  unread : stmt.getdataCol = -1 → stmt.getdataOffset = 0
  /-- A value is read to its end and no further. -/
  offset : ∀ number column cell, OnCell stmt number column cell → stmt.getdataCol = number.toNat →
    stmt.getdataOffset ≤ (cell.text.getD []).length + 1

/-- What the application set on a statement is within its types. -/
structure Stmt.Configured (stmt : Stmt) : Prop where
  multiStatementCount : -1 ≤ stmt.multiStatementCount
  boundCols : stmt.boundCols.length < 2 ^ 16
  params : stmt.params.length < 2 ^ 16

structure Stmt.WellFormed (stmt : Stmt) : Prop extends stmt.Consistent, stmt.Configured

section

variable {stmt : Stmt} {response : Response} (hsynth : stmt.synth = none)
  (hresponse : stmt.response = some response)

include hsynth hresponse

theorem sqlMoreResults_last (hset : response.sets[stmt.currentSet + 1]? = none) :
    sqlMoreResults stmt = (.noData, stmt) := by
  unfold sqlMoreResults
  rw [hsynth, hresponse]
  exact if_pos (List.getElem?_eq_none_iff.1 hset)

theorem sqlMoreResults_next {set : ResultSet} (hset : response.sets[stmt.currentSet + 1]? = some set) :
    sqlMoreResults stmt = (.success, { stmt with
      currentSet := stmt.currentSet + 1
      currentRow := -1
      rowCount := countedRows set
      getdataCol := -1
      getdataOffset := 0 }) := by
  have hmore : ¬response.sets.length ≤ stmt.currentSet + 1 :=
    not_le.2 (List.getElem?_eq_some_iff.1 hset).1
  unfold sqlMoreResults flStmtCurrentSet
  simp only [hsynth, hresponse, if_neg hmore, Option.bind_some, hset]
  rfl

end

namespace Stmt.Consistent

variable {stmt : Stmt}

/-- The results do not depend on the other fields. -/
theorem frame (h : stmt.Consistent) (preparedSql : Option Bytes) (boundCols : List BoundCol)
    (params : List BoundParam) (multiStatementCount : ℤ) (maxRows : ℕ)
    (rowsFetchedPtr rowStatusPtr : Bool) :
    Stmt.Consistent { stmt with
      preparedSql := preparedSql
      boundCols := boundCols
      params := params
      multiStatementCount := multiStatementCount
      maxRows := maxRows
      rowsFetchedPtr := rowsFetchedPtr
      rowStatusPtr := rowStatusPtr } where
  response := h.response
  synth := h.synth
  currentSet := h.currentSet
  noSet := h.noSet
  row := h.row
  rowCount := h.rowCount
  unread := h.unread
  offset number column cell hcell := h.offset number column cell ⟨hcell.exists_set⟩

theorem of_cleared (stmt : Stmt) : (flStmtClearResults stmt).Consistent where
  response response h := by cases h
  synth set h := by cases h
  currentSet := .inl rfl
  noSet _ := rfl
  row set h := by cases h
  rowCount := rfl
  unread _ := rfl
  offset number column cell h := by
    obtain ⟨set, hset, -⟩ := h.exists_set
    cases hset

theorem of_installSynth (stmt : Stmt) {set : ResultSet} (hset : set.Rectangular) :
    (installSynth stmt set).Consistent where
  response response h := by cases h
  synth set' h := by
    cases h
    exact ⟨hset, rfl⟩
  currentSet := .inl rfl
  noSet h := by cases h
  row set' h := by
    cases h
    exact ⟨le_rfl, le_trans (show (-1 : ℤ) ≤ 0 by decide) hset.nonneg⟩
  rowCount := rfl
  unread _ := rfl
  offset number column cell h hcol := by
    have hnot : (-1 : ℤ) = number.toNat := hcol
    omega

/-- A statement that was just answered. -/
theorem of_answered (stmt : Stmt) {response : Response} (hresponse : response.Rectangular) :
    Stmt.Consistent { flStmtClearResults stmt with
      response := some response
      rowCount := ((response.sets[0]?).map countedRows).getD 0 } where
  response response' h := by
    cases h
    exact hresponse
  synth set h := by cases h
  currentSet := .inl rfl
  noSet _ := rfl
  row set h := by
    have hmem : set ∈ response.sets := List.mem_of_getElem? h
    exact ⟨le_rfl, le_trans (show (-1 : ℤ) ≤ 0 by decide) (hresponse set hmem).1.nonneg⟩
  rowCount := rfl
  unread _ := rfl
  offset number column cell h hcol := by
    have hnot : (-1 : ℤ) = number.toNat := hcol
    omega

/-- The current set is rectangular. -/
theorem rectangular (h : stmt.Consistent) {set : ResultSet} (hset : flStmtCurrentSet stmt = some set) :
    set.Rectangular := by
  unfold flStmtCurrentSet at hset
  cases hsynth : stmt.synth with
  | some synth =>
    rw [hsynth] at hset
    cases hset
    exact (h.synth set hsynth).1
  | none =>
    rw [hsynth] at hset
    obtain ⟨response, hresponse, hget⟩ := Option.bind_eq_some_iff.1 hset
    exact (h.response response hresponse set (List.mem_of_getElem? hget)).1

/-- The end of a set. -/
theorem exhaust (h : stmt.Consistent) {set : ResultSet} (hset : flStmtCurrentSet stmt = some set) :
    Stmt.Consistent { stmt with currentRow := set.rowCount } where
  response := h.response
  synth := h.synth
  currentSet := h.currentSet
  noSet hnone := absurd (hset.symm.trans hnone) (Option.some_ne_none set)
  row set' hset' := by
    obtain rfl := Option.some.inj (hset.symm.trans hset')
    exact ⟨le_trans (show (-1 : ℤ) ≤ 0 by decide) (h.rectangular hset).nonneg, le_rfl⟩
  rowCount := h.rowCount
  unread := h.unread
  offset number column cell hcell := by
    obtain ⟨set', hset', -, hlt, -⟩ := hcell.exists_set
    obtain rfl := Option.some.inj (hset.symm.trans hset')
    exact absurd hlt (lt_irrefl _)

/-- The next row of a set. -/
theorem advance (h : stmt.Consistent) {set : ResultSet} (hset : flStmtCurrentSet stmt = some set)
    (hlt : stmt.currentRow + 1 < set.rowCount) :
    Stmt.Consistent { stmt with
      currentRow := stmt.currentRow + 1
      getdataCol := -1
      getdataOffset := 0 } where
  response := h.response
  synth := h.synth
  currentSet := h.currentSet
  noSet hnone := absurd (hset.symm.trans hnone) (Option.some_ne_none set)
  row set' hset' := by
    obtain rfl := Option.some.inj (hset.symm.trans hset')
    have hrow := (h.row set hset).1
    dsimp only
    omega
  rowCount := h.rowCount
  unread _ := rfl
  offset _ _ _ _ _ := Nat.zero_le _

theorem fetch (h : stmt.Consistent) (beyond : Behind) : (sqlFetch beyond stmt).2.Consistent := by
  rcases sqlFetch_cases beyond stmt with ⟨-, -, heq⟩ | ⟨set, hset, ⟨-, -, heq⟩ | ⟨hlt, -, heq⟩⟩
  · rw [heq]
    exact h
  · rw [heq]
    exact h.exhaust hset
  · rw [heq]
    have hlimit := (rowLimit_le (h.rectangular hset).toCounted stmt.maxRows).1
    exact h.advance hset (lt_of_lt_of_le hlt hlimit)

/-- `SQLGetData` comes to a cell, or says why not and leaves the statement alone. -/
theorem sqlGetData_cases (h : stmt.Consistent) (beyond : Behind) (number : UInt16) (target : Target) :
    (sqlGetData beyond stmt number target =
        ({ ret := .error (flDiagSet "24000" (lit "Not positioned on a row")) }, stmt) ∧
      ∀ set, flStmtCurrentSet stmt = some set → stmt.currentRow < 0 ∨ set.rowCount ≤ stmt.currentRow) ∨
    (sqlGetData beyond stmt number target =
        ({ ret := .error (flDiagSet "07009" (lit "Invalid column number")) }, stmt) ∧
      ∀ set, flStmtCurrentSet stmt = some set → columnAt set number = none) ∨
    ∃ column cell, OnCell stmt number column cell := by
  cases hset : flStmtCurrentSet stmt with
  | none =>
    refine .inl ⟨?_, fun set hsome => by cases hsome⟩
    unfold sqlGetData
    rw [hset]
  | some set =>
    simp only [Option.some.injEq, forall_eq']
    by_cases hrow : stmt.currentRow < 0 ∨ set.rowCount ≤ stmt.currentRow
    · refine .inl ⟨?_, hrow⟩
      unfold sqlGetData
      rw [hset]
      exact if_pos hrow
    · cases hcolumn : columnAt set number with
      | none =>
        refine .inr (.inl ⟨?_, rfl⟩)
        unfold sqlGetData
        simp only [hset, hcolumn, if_neg hrow]
      | some column =>
        have hon : 0 ≤ stmt.currentRow ∧ stmt.currentRow < set.rowCount := by omega
        obtain ⟨-, cell, hcell⟩ :=
          (h.rectangular hset).exists_cell hon (columnAt_lt hcolumn).2
        exact .inr (.inr ⟨column, cell, set, hset, hon.1, hon.2, hcolumn, hcell⟩)

theorem readOffset_le (h : stmt.Consistent) {number : UInt16} {column : Column} {cell : Cell}
    (hcell : OnCell stmt number column cell) :
    readOffset stmt number ≤ (cell.text.getD []).length + 1 := by
  unfold readOffset
  by_cases hcol : stmt.getdataCol = number.toNat
  · rw [if_neg (not_not.2 hcol)]
    exact h.offset number column cell hcell hcol
  · rw [if_pos hcol]
    exact Nat.zero_le _

theorem getData (h : stmt.Consistent) (beyond : Behind) (number : UInt16) (target : Target) :
    (sqlGetData beyond stmt number target).2.Consistent := by
  rcases h.sqlGetData_cases beyond number target with ⟨heq, -⟩ | ⟨heq, -⟩ | ⟨column, cell, hcell⟩
  · rw [heq]
    exact h
  · rw [heq]
    exact h
  · rw [sqlGetData_onCell beyond hcell]
    refine ⟨h.response, h.synth, h.currentSet, h.noSet, h.row, h.rowCount, ?_, ?_⟩
    · intro hcol
      have hnot : (number.toNat : ℤ) = -1 := hcol
      omega
    · intro number' column' cell' hcell' hcol
      -- the same column of the same row is the same cell
      have hnumber : number = number' := by
        have hnat : (number.toNat : ℤ) = number'.toNat := hcol
        exact UInt16.toNat_inj.1 (by exact_mod_cast hnat)
      subst hnumber
      obtain ⟨set, hset, -, -, -, hget⟩ := hcell.exists_set
      obtain ⟨set', hset', -, -, -, hget'⟩ := hcell'.exists_set
      obtain rfl := Option.some.inj (hset.symm.trans hset')
      obtain rfl := Option.some.inj (hget.symm.trans hget')
      exact (convertCell_form _ column cell target).offset_le (h.readOffset_le hcell)

/-- The next set of a response. -/
theorem of_nextSet (h : stmt.Consistent) {response : Response} (hsynth : stmt.synth = none)
    (hresponse : stmt.response = some response) {set : ResultSet}
    (hset : response.sets[stmt.currentSet + 1]? = some set) :
    Stmt.Consistent { stmt with
      currentSet := stmt.currentSet + 1
      currentRow := -1
      rowCount := countedRows set
      getdataCol := -1
      getdataOffset := 0 } where
  response := h.response
  synth := h.synth
  currentSet := .inr ⟨response, hresponse, (List.getElem?_eq_some_iff.1 hset).1⟩
  noSet _ := rfl
  row set' hset' := by
    have hnext : response.sets[stmt.currentSet + 1]? = some set' := by
      unfold flStmtCurrentSet at hset'
      simpa only [hsynth, hresponse, Option.bind_some] using hset'
    obtain ⟨hrect, -⟩ := h.response response hresponse set' (List.mem_of_getElem? hnext)
    exact ⟨le_rfl, le_trans (show (-1 : ℤ) ≤ 0 by decide) hrect.nonneg⟩
  rowCount := by
    unfold Stmt.reportedRows
    simp only [hsynth, hresponse, hset]
    rfl
  unread _ := rfl
  offset number column cell hcell hcol := Nat.zero_le _

theorem moreResults (h : stmt.Consistent) : (sqlMoreResults stmt).2.Consistent := by
  cases hsynth : stmt.synth with
  | some set =>
    unfold sqlMoreResults
    simp only [hsynth]
    exact h
  | none =>
    cases hresponse : stmt.response with
    | none =>
      unfold sqlMoreResults
      simp only [hsynth, hresponse]
      exact h
    | some response =>
      cases hset : response.sets[stmt.currentSet + 1]? with
      | none =>
        rw [sqlMoreResults_last hsynth hresponse hset]
        exact h
      | some set =>
        rw [sqlMoreResults_next hsynth hresponse hset]
        exact h.of_nextSet hsynth hresponse hset

end Stmt.Consistent



/-! ## Every call -/

/-- What a call that sends requests leaves of its statement. -/
def LeavesWellFormed (a : Except Diag Unit × Stmt × Dbc) (_ : Unit) : Prop := a.2.1.WellFormed

theorem sqlOutcome_ok {stmt : Stmt} (hsynth : stmt.synth = none) {response : Response}
    (hm : response.errorMessage = none) (sql : Bytes) (d : Dbc) :
    sqlOutcome stmt sql (.ok response, d) = (.ok (), { stmt with
      response := some response
      currentSet := 0
      currentRow := -1
      rowCount := ((response.sets[0]?).map countedRows).getD 0 }, trackContext d sql) := by
  unfold sqlOutcome flStmtCurrentSet
  simp only [hm, hsynth, Option.bind_some]
  cases response.sets[0]? <;> rfl

theorem Stmt.Configured.of_eq {stmt stmt' : Stmt} (h : stmt.Configured)
    (hcount : stmt'.multiStatementCount = stmt.multiStatementCount)
    (hcols : stmt'.boundCols = stmt.boundCols) (hparams : stmt'.params = stmt.params) :
    stmt'.Configured :=
  ⟨hcount ▸ h.multiStatementCount, hcols ▸ h.boundCols, hparams ▸ h.params⟩

section

variable {stmt : Stmt} (h : stmt.WellFormed)

include h

theorem wellFormed_cleared : (flStmtClearResults stmt).WellFormed :=
  ⟨.of_cleared stmt, h.toConfigured.of_eq rfl rfl rfl⟩

theorem wellFormed_installSynth {set : ResultSet} (hset : set.Rectangular) :
    (installSynth stmt set).WellFormed :=
  ⟨.of_installSynth stmt hset, h.toConfigured.of_eq rfl rfl rfl⟩

theorem wellFormed_sqlOutcome (sql : Bytes) {a : Result × Dbc} (ha : a.1.Rectangular) :
    (sqlOutcome (flStmtClearResults stmt) sql a).2.1.WellFormed := by
  obtain ⟨result, d⟩ := a
  cases result with
  | error e => exact wellFormed_cleared h
  | ok response =>
    cases hm : response.errorMessage with
    | some message =>
      unfold sqlOutcome
      simp only [hm]
      exact wellFormed_cleared h
    | none =>
      rw [sqlOutcome_ok rfl hm]
      exact ⟨.of_answered stmt (ha response rfl hm), h.toConfigured.of_eq rfl rfl rfl⟩

theorem holds_runSql_wellFormed (sql : Bytes) (dbc : Dbc) :
    boundedAnswers.Holds (runSql stmt sql dbc) LeavesWellFormed () := by
  rw [runSql_eq]
  exact ((holds_rectangular dbc sql _ _).mono fun a _ ha => wellFormed_sqlOutcome h sql ha).map

theorem holds_executeSql_wellFormed (sql : Bytes) (dbc : Dbc) :
    boundedAnswers.Holds (executeSql stmt sql dbc) LeavesWellFormed () := by
  unfold executeSql
  split
  · cases substituteParams stmt.params sql with
    | error diag => exact Monitor.holds_pure h
    | ok finalSql => exact holds_runSql_wellFormed h _ dbc
  · exact holds_runSql_wellFormed h sql dbc

theorem holds_sqlExecute_wellFormed (dbc : Dbc) :
    boundedAnswers.Holds (sqlExecute stmt dbc) LeavesWellFormed () := by
  unfold sqlExecute
  cases stmt.preparedSql with
  | none => exact Monitor.holds_pure h
  | some sql => exact holds_executeSql_wellFormed h sql dbc

/-- A catalog function keeps the invariant if the set it puts together from a rectangular one is
rectangular. -/
theorem holds_catalogResult_wellFormed {synth : ResultSet → ResultSet}
    (hsynth : ∀ set, set.Rectangular → set.Few → (synth set).Rectangular) (query : Bytes) (dbc : Dbc) :
    boundedAnswers.Holds (catalogResult query synth stmt dbc) LeavesWellFormed () := by
  have hlisted : boundedAnswers.Holds (runCatalogQuery query dbc)
      (fun a _ => ∀ set, a.1 = .ok set → set.Rectangular ∧ set.Few) () := by
    apply (holds_rectangular dbc query (-1) { tracked := true, recover := true }).bind
    rintro ⟨result, d⟩ _ ha
    cases result with
    | error e => exact Monitor.holds_pure fun set hset => by cases hset
    | ok response =>
      dsimp only
      cases hm : response.errorMessage with
      | some message => exact Monitor.holds_pure fun set hset => by cases hset
      | none =>
        dsimp only
        cases hsets : response.sets with
        | nil => exact Monitor.holds_pure fun set hset => by cases hset
        | cons first rest =>
          refine Monitor.holds_pure fun set hset => ?_
          cases hset
          exact ha response rfl hm first (by rw [hsets]; exact List.mem_cons_self ..)
  apply hlisted.bind
  rintro ⟨listed, d⟩ _ ha
  cases listed with
  | error diag => exact Monitor.holds_pure h
  | ok set =>
    obtain ⟨hrect, hfew⟩ := ha set rfl
    exact Monitor.holds_pure (wellFormed_installSynth h (hsynth set hrect hfew))

end

/-! ## The sets the driver builds itself -/

theorem ResultSet.Few.listed_toNat {set : ResultSet} (h : set.Few) :
    set.rowCount.toNat * 18 < 2 ^ 31 := by
  have hlt : set.rowCount * 18 < 2 ^ 31 := h.listed
  omega

theorem rectangular_tables {rows : List (List Cell)} (hlt : rows.length * 5 < 2 ^ 31)
    (hrows : ∀ row ∈ rows, row.length = 5) : (tablesShape rows).Rectangular :=
  rectangular_flSynthNew (by omega) hrows hlt

theorem rectangular_databases {shown : ResultSet} (h : shown.Few) :
    (tablesShape (databaseRows shown)).Rectangular := by
  apply rectangular_tables
  · have hlt := h.listed_toNat
    unfold databaseRows
    rw [List.length_map, List.length_range]
    omega
  · intro row hrow
    obtain ⟨r, -, rfl⟩ := List.mem_map.1 hrow
    rfl

theorem length_tableRow {types : Option Bytes} {listed : ResultSet} {r : ℕ} {row : List Cell}
    (h : tableRow types listed r = some row) : row.length = 5 := by
  unfold tableRow at h
  dsimp only at h
  split at h
  · cases h
    rfl
  · cases h

theorem rectangular_listing (types : Option Bytes) {listed : ResultSet} (h : listed.Few) :
    (tablesShape ((List.range listed.rowCount.toNat).filterMap
      (tableRow types listed))).Rectangular := by
  apply rectangular_tables
  · have hlt := h.listed_toNat
    have hle := List.length_filterMap_le (tableRow types listed) (List.range listed.rowCount.toNat)
    rw [List.length_range] at hle
    omega
  · intro row hrow
    obtain ⟨r, -, hr⟩ := List.mem_filterMap.1 hrow
    exact length_tableRow hr

theorem rectangular_columns {listed : ResultSet} (h : listed.Few) :
    (flSynthNew columnsColumns
      ((List.range listed.rowCount.toNat).map (columnRow listed))).Rectangular := by
  have hlt := h.listed_toNat
  have hlength : ((List.range listed.rowCount.toNat).map (columnRow listed)).length =
      listed.rowCount.toNat := by
    rw [List.length_map, List.length_range]
  apply rectangular_flSynthNew
  · omega
  · intro row hrow
    obtain ⟨r, -, rfl⟩ := List.mem_map.1 hrow
    rfl
  · rw [hlength]
    exact hlt

theorem rectangular_typeInfo (dataType : Int16) : (typeInfo dataType).Rectangular := by
  have hwide : typeInfoColumns.length = 19 := rfl
  have hfew : typeRows.length ≤ 2 ^ 16 := by decide
  have hle := List.length_filter_le
    (fun t => dataType.toInt = sqlAllTypes || dataType.toInt = t.dataType.code) typeRows
  apply rectangular_flSynthNew
  · rw [List.length_map]
    omega
  · intro row hrow
    obtain ⟨t, -, rfl⟩ := List.mem_map.1 hrow
    rfl
  · rw [List.length_map, hwide]
    omega

theorem rectangular_empty (columns : List Column) : (flSynthNew columns []).Rectangular :=
  rectangular_flSynthNew (by decide) (fun row hrow => absurd hrow List.not_mem_nil) (by simp)

theorem holds_exchanged_wellFormed {p : Call (Except Diag Unit × Stmt × Dbc)}
    (hp : boundedAnswers.Holds p LeavesWellFormed ()) :
    boundedAnswers.Holds (exchanged p) (fun a _ => a.2.1.WellFormed) () := by
  unfold exchanged
  apply Monitor.Holds.map
  exact hp.mono fun a _ ha => ha

/-! ## The step -/

section

variable {stmt : Stmt} (h : stmt.WellFormed)

include h

theorem wellFormed_sqlBindCol (number : UInt16) (target : Target) :
    (sqlBindCol stmt number target).2.WellFormed := by
  unfold sqlBindCol
  split
  · exact h
  · refine ⟨h.frame _ _ _ _ _ _ _, h.multiStatementCount, ?_, h.params⟩
    have hnumber := number.toNat_lt
    have hlength := h.boundCols
    dsimp only
    rw [List.length_modify, List.length_append, List.length_replicate]
    omega

theorem wellFormed_sqlBindParameter (number : UInt16) (isInput : Bool) (sqlType : SqlType)
    (buffer : Option ParamValue) (strLenOrInd : Option ℤ) :
    (sqlBindParameter stmt number isInput sqlType buffer strLenOrInd).2.WellFormed := by
  unfold sqlBindParameter
  split
  · exact h
  · split
    · exact h
    · refine ⟨h.frame _ _ _ _ _ _ _, h.multiStatementCount, h.boundCols, ?_⟩
      have hnumber := number.toNat_lt
      have hlength := h.params
      dsimp only
      rw [List.length_set, List.length_append, List.length_replicate]
      omega

theorem wellFormed_fillParam (number : UInt16) (value : CValue) (strLenOrInd : ℤ) :
    (fillParam stmt number value strLenOrInd).WellFormed := by
  unfold fillParam
  dsimp only
  split
  · exact h
  · refine ⟨h.frame _ _ _ _ _ _ _, h.multiStatementCount, h.boundCols, ?_⟩
    dsimp only
    rw [List.length_modify]
    exact h.params

theorem wellFormed_sqlSetStmtAttr (attr : StmtAttr) (value : UInt64) :
    (sqlSetStmtAttr stmt attr value).2.WellFormed := by
  have honly : ∀ supported otherwise, (onlyValue value supported otherwise stmt).2.WellFormed := by
    intro supported otherwise
    unfold onlyValue
    split <;> exact h
  cases attr
  case maxRows => exact ⟨h.frame _ _ _ _ _ _ _, h.toConfigured.of_eq rfl rfl rfl⟩
  case multiStatementCount =>
    unfold sqlSetStmtAttr
    dsimp only
    split
    · exact h
    · next hcount => exact ⟨h.frame _ _ _ _ _ _ _, not_lt.1 hcount, h.boundCols, h.params⟩
  case rowsFetchedPtr => exact ⟨h.frame _ _ _ _ _ _ _, h.toConfigured.of_eq rfl rfl rfl⟩
  case rowStatusPtr => exact ⟨h.frame _ _ _ _ _ _ _, h.toConfigured.of_eq rfl rfl rfl⟩
  case rowNumber => exact h
  case descriptor => exact h
  case ignored => exact h
  case other => exact h
  all_goals exact honly _ _

theorem wellFormed_sqlFreeStmt {option : FreeOption} {left : Stmt}
    (hleft : (sqlFreeStmt option stmt).2 = some left) : left.WellFormed := by
  cases option with
  | close =>
    cases hleft
    exact wellFormed_cleared h
  | unbind =>
    cases hleft
    exact ⟨h.frame _ _ _ _ _ _ _, h.multiStatementCount, Nat.two_pow_pos 16, h.params⟩
  | resetParams =>
    cases hleft
    exact ⟨h.frame _ _ _ _ _ _ _, h.multiStatementCount, h.boundCols, Nat.two_pow_pos 16⟩
  | drop => cases hleft
  | other =>
    cases hleft
    exact h

theorem wellFormed_sqlFetch (beyond : Behind) : (sqlFetch beyond stmt).2.WellFormed := by
  refine ⟨h.fetch beyond, ?_⟩
  rcases sqlFetch_cases beyond stmt with ⟨-, -, heq⟩ | ⟨set, -, ⟨-, -, heq⟩ | ⟨-, -, heq⟩⟩
  all_goals
    rw [heq]
    exact h.toConfigured.of_eq rfl rfl rfl

theorem wellFormed_sqlGetData (beyond : Behind) (number : UInt16) (target : Target) :
    (sqlGetData beyond stmt number target).2.WellFormed := by
  refine ⟨h.getData beyond number target, ?_⟩
  rcases h.sqlGetData_cases beyond number target with ⟨heq, -⟩ | ⟨heq, -⟩ | ⟨column, cell, hcell⟩
  · rw [heq]
    exact h.toConfigured
  · rw [heq]
    exact h.toConfigured
  · rw [sqlGetData_onCell beyond hcell]
    exact h.toConfigured.of_eq rfl rfl rfl

theorem wellFormed_sqlMoreResults : (sqlMoreResults stmt).2.WellFormed := by
  refine ⟨h.moreResults, ?_⟩
  unfold sqlMoreResults
  split
  · split
    · exact h.toConfigured
    · exact h.toConfigured.of_eq rfl rfl rfl
  · exact h.toConfigured

/-- Every call keeps the invariant. -/
theorem holds_stmtCall_wellFormed (dbc : Dbc) (c : StmtCall) :
    boundedAnswers.Holds (c.run stmt dbc) (fun a _ => a.2.1.WellFormed) () := by
  cases c
  case execDirect => exact holds_exchanged_wellFormed (holds_executeSql_wellFormed h _ dbc)
  case execute => exact holds_exchanged_wellFormed (holds_sqlExecute_wellFormed h dbc)
  case tables catalogName schemaName tableName tableType =>
    apply holds_exchanged_wellFormed
    unfold sqlTables
    dsimp only
    split
    · exact holds_catalogResult_wellFormed h (fun _ _ hfew => rectangular_databases hfew) _ dbc
    · exact Monitor.holds_pure (wellFormed_installSynth h (rectangular_tables (by decide) (by decide)))
    · exact holds_catalogResult_wellFormed h (fun _ _ hfew => rectangular_listing _ hfew) _ dbc
  case columns =>
    apply holds_exchanged_wellFormed
    exact holds_catalogResult_wellFormed h (fun _ _ hfew => rectangular_columns hfew) _ dbc
  case prepare text length =>
    refine Monitor.holds_pure ⟨.of_cleared _, ?_⟩
    exact h.toConfigured.of_eq rfl rfl rfl
  case bindParameter => exact Monitor.holds_pure (wellFormed_sqlBindParameter h _ _ _ _ _)
  case fillParam => exact Monitor.holds_pure (wellFormed_fillParam h _ _ _)
  case bindCol => exact Monitor.holds_pure (wellFormed_sqlBindCol h _ _)
  case fetch beyond => exact Monitor.holds_pure (wellFormed_sqlFetch h beyond)
  case fetchScroll beyond next =>
    cases next with
    | false => exact Monitor.holds_pure h
    | true => exact Monitor.holds_pure (wellFormed_sqlFetch h beyond)
  case getData beyond number target =>
    exact Monitor.holds_pure (wellFormed_sqlGetData h beyond number target)
  case moreResults => exact Monitor.holds_pure (wellFormed_sqlMoreResults h)
  case closeCursor => exact Monitor.holds_pure (wellFormed_cleared h)
  case freeStmt option kept =>
    refine Monitor.holds_pure ?_
    show ((sqlFreeStmt option stmt).2.getD stmt).WellFormed
    cases hleft : (sqlFreeStmt option stmt).2 with
    | none => exact h
    | some left => exact wellFormed_sqlFreeStmt h hleft
  case setStmtAttr attr value => exact Monitor.holds_pure (wellFormed_sqlSetStmtAttr h attr value)
  case getTypeInfo dataType =>
    exact Monitor.holds_pure (wellFormed_installSynth h (rectangular_typeInfo dataType))
  case statistics => exact Monitor.holds_pure (wellFormed_installSynth h (rectangular_empty _))
  case specialColumns => exact Monitor.holds_pure (wellFormed_installSynth h (rectangular_empty _))
  case primaryKeys => exact Monitor.holds_pure (wellFormed_installSynth h (rectangular_empty _))
  all_goals exact Monitor.holds_pure h

end

theorem wellFormed_freshStmt : freshStmt.WellFormed where
  toConsistent := .of_cleared freshStmt
  multiStatementCount := by decide
  boundCols := by decide
  params := by decide

/-! ## Every run -/

/-- A statement that was allocated and then called any number of times. Between two calls on it the
connection may have changed in any way: it is shared with other statements. -/
inductive Stmt.Reached : Stmt → Prop where
  | alloc {dbc : Dbc} {stmt : Stmt} (h : allocStmt dbc = .ok stmt) : Stmt.Reached stmt
  | call {stmt stmt' : Stmt} {dbc dbc' : Dbc} {c : StmtCall} {t : List (Request × HttpReply)}
      {answer : StmtAnswer} (h : stmt.Reached) (hrun : Runs (c.run stmt dbc) t (answer, stmt', dbc'))
      (ht : ∀ e ∈ t, e.2.Bounded) : Stmt.Reached stmt'

/-- Every call on a statement leaves it well-formed. -/
theorem wellFormed_of_reached {stmt : Stmt} (h : stmt.Reached) : stmt.WellFormed := by
  induction h with
  | @alloc dbc stmt h =>
    unfold allocStmt at h
    split at h
    · cases h
    · cases h
      exact wellFormed_freshStmt
  | @call stmt stmt' dbc dbc' c t answer _ hrun ht ih =>
    exact ((holds_stmtCall_wellFormed ih dbc c).runs hrun (admits_boundedAnswers ht)).2

end FrostlakeOdbc
