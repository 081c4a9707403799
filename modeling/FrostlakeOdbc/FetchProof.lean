import FrostlakeOdbc.StatementInvariant

/-!
# What a fetch delivers

In every state a statement can be in, `SQLFetch` and `SQLGetData` read only cells that are there
(`reads_of_reached`), and a bound column is delivered what `SQLGetData` would hand over for it first
(`fetch_agrees_of_reached`).
-/

namespace FrostlakeOdbc

open CString Exchange Client

/-! ## The bound columns of a row -/

def SqlReturn.isError : SqlReturn → Bool
  | .error _ => true
  | _ => false

/-- What a call returns so far, after one more of its conversions. -/
def joinReturn (ret one : SqlReturn) : SqlReturn := if one = .success then ret else one

section

variable {beyond : Behind} {set : ResultSet} {row : ℤ} {i : ℕ} {bound : BoundCol} {column : Column}
  {rest : List (BoundCol × Column)} {ret : SqlReturn}

theorem deliverColumns_unbound (hbound : bound.bound = false) :
    deliverColumns beyond set row i ((bound, column) :: rest) ret =
      deliverColumns beyond set row (i + 1) rest ret := by
  rw [deliverColumns, hbound]
  rfl

theorem deliverColumns_bound (hbound : bound.bound = true) {cell : Cell}
    (hcell : set.cellAt row i = some cell) {one : Conversion}
    (hone : convertCell (beyond row i) column cell bound.target none = one) :
    deliverColumns beyond set row i ((bound, column) :: rest) ret =
      if one.ret.isError then (one.ret, [(i, one)])
      else
        ((deliverColumns beyond set row (i + 1) rest (joinReturn ret one.ret)).1,
          (i, one) :: (deliverColumns beyond set row (i + 1) rest (joinReturn ret one.ret)).2) := by
  have hne := convertCell_ret_ne bound.target (beyond row i) column cell
  rw [deliverColumns, hbound, hcell]
  dsimp only
  rw [hone] at hne ⊢
  cases hret : one.ret with
  | success => rfl
  | successWithInfo diag => rfl
  | noData => exact absurd hret hne
  | error diag => rfl

/-- What is delivered is the conversion of a cell of the row, for a column that is bound. -/
theorem cell_of_mem_deliverColumns {columns : List (BoundCol × Column)} {j : ℕ} {one : Conversion}
    (h : (j, one) ∈ (deliverColumns beyond set row i columns ret).2) :
    ∃ k bound column cell, j = i + k ∧ columns[k]? = some (bound, column) ∧ bound.bound = true ∧
      set.cellAt row j = some cell ∧
      one = convertCell (beyond row j) column cell bound.target none := by
  induction columns generalizing i ret with
  | nil => cases h
  | cons head rest ih =>
    obtain ⟨bound, column⟩ := head
    have hrest : ∀ {ret}, (j, one) ∈ (deliverColumns beyond set row (i + 1) rest ret).2 →
        ∃ k bound' column' cell, j = i + k ∧ ((bound, column) :: rest)[k]? = some (bound', column') ∧
          bound'.bound = true ∧ set.cellAt row j = some cell ∧
          one = convertCell (beyond row j) column' cell bound'.target none := by
      intro ret hmem
      obtain ⟨k, bound', column', cell, rfl, hk, hfound⟩ := ih hmem
      exact ⟨k + 1, bound', column', cell, by omega, hk, hfound⟩
    cases hbound : bound.bound with
    | false =>
      rw [deliverColumns_unbound hbound] at h
      exact hrest h
    | true =>
      cases hcell : set.cellAt row i with
      | none =>
        rw [deliverColumns, hbound, hcell] at h
        cases h
      | some cell =>
        rw [deliverColumns_bound hbound hcell rfl] at h
        have hfirst : (j, one) = (i, convertCell (beyond row i) column cell bound.target none) →
            ∃ k bound' column' cell', j = i + k ∧
              ((bound, column) :: rest)[k]? = some (bound', column') ∧ bound'.bound = true ∧
              set.cellAt row j = some cell' ∧
              one = convertCell (beyond row j) column' cell' bound'.target none := by
          intro heq
          cases heq
          exact ⟨0, bound, column, cell, rfl, rfl, hbound, hcell, rfl⟩
        split at h
        · exact hfirst (List.mem_singleton.1 h)
        · rcases List.mem_cons.1 h with heq | hmem
          · exact hfirst heq
          · exact hrest hmem

/-- The `n` cells of a row from the index `i` on are there. -/
def CellsFrom (set : ResultSet) (row : ℤ) (i n : ℕ) : Prop :=
  ∀ k < n, ∃ cell, set.cellAt row (i + k) = some cell

theorem CellsFrom.head {n : ℕ} (h : CellsFrom set row i (n + 1)) :
    ∃ cell, set.cellAt row i = some cell := h 0 (Nat.succ_pos n)

theorem CellsFrom.tail {n : ℕ} (h : CellsFrom set row i (n + 1)) : CellsFrom set row (i + 1) n := by
  intro k hk
  rw [Nat.add_assoc, Nat.add_comm 1 k]
  exact h (k + 1) (Nat.succ_lt_succ hk)

variable {columns : List (BoundCol × Column)}

/-- Where the cells are there, the call returns what the last conversion returned that did not simply
succeed. -/
theorem ret_deliverColumns (hcells : CellsFrom set row i columns.length) :
    (deliverColumns beyond set row i columns ret).1 =
      (deliverColumns beyond set row i columns ret).2.foldl (fun ret one => joinReturn ret one.2.ret)
        ret := by
  induction columns generalizing i ret with
  | nil => rfl
  | cons head rest ih =>
    obtain ⟨bound, column⟩ := head
    cases hbound : bound.bound with
    | false =>
      rw [deliverColumns_unbound hbound]
      exact ih hcells.tail
    | true =>
      obtain ⟨cell, hcell⟩ := hcells.head
      rw [deliverColumns_bound hbound hcell rfl]
      split
      · next herror =>
        show _ = joinReturn ret _
        unfold joinReturn
        rw [if_neg]
        intro hsuccess
        rw [hsuccess] at herror
        cases herror
      · exact ih hcells.tail

/-- Where the cells are there and no conversion fails, every bound column is delivered. -/
theorem mem_deliverColumns (hcells : CellsFrom set row i columns.length)
    (hok : (deliverColumns beyond set row i columns ret).1.isError = false) {k : ℕ}
    (hk : columns[k]? = some (bound, column)) (hbound : bound.bound = true) :
    ∃ one, (i + k, one) ∈ (deliverColumns beyond set row i columns ret).2 := by
  induction columns generalizing i ret k with
  | nil => cases hk
  | cons head rest ih =>
    obtain ⟨bound', column'⟩ := head
    -- the column is the first one, or one of the rest
    have hlater : ∀ {ret k}, (deliverColumns beyond set row (i + 1) rest ret).1.isError = false →
        rest[k]? = some (bound, column) →
        ∃ one, (i + (k + 1), one) ∈ (deliverColumns beyond set row (i + 1) rest ret).2 := by
      intro ret k hok hk
      obtain ⟨one, hone⟩ := ih hcells.tail hok hk
      rw [Nat.add_assoc, Nat.add_comm 1 k] at hone
      exact ⟨one, hone⟩
    cases hbound' : bound'.bound with
    | false =>
      rw [deliverColumns_unbound hbound'] at hok ⊢
      cases k with
      | zero =>
        cases hk
        rw [hbound] at hbound'
        cases hbound'
      | succ k => exact hlater hok hk
    | true =>
      obtain ⟨cell, hcell⟩ := hcells.head
      rw [deliverColumns_bound hbound' hcell rfl] at hok ⊢
      split at hok
      · next herror =>
        rw [herror] at hok
        cases hok
      · next hgo =>
        rw [if_neg hgo]
        cases k with
        | zero => exact ⟨_, List.mem_cons_self ..⟩
        | succ k =>
          obtain ⟨one, hone⟩ := hlater hok hk
          exact ⟨one, List.mem_cons_of_mem _ hone⟩

end

/-! ## Reads in every state -/

/-- The call found its row. -/
def Fetched.positions (fetched : Fetched) : Prop :=
  fetched.ret.isError = false ∧ fetched.ret ≠ .noData

/-- Both calls that read the results of a statement read cells that are there. -/
structure Stmt.ReadsInside (stmt : Stmt) : Prop where
  /-- What a fetch delivers is converted from the cells of the next row. -/
  fetch : ∀ beyond i one, (i, one) ∈ (sqlFetch beyond stmt).1.columns →
    ∃ set bound column cell, flStmtCurrentSet stmt = some set ∧ stmt.boundCols[i]? = some bound ∧
      bound.bound = true ∧ set.columns[i]? = some column ∧
      set.Indexes (stmt.currentRow + 1) i ∧ set.cellAt (stmt.currentRow + 1) i = some cell ∧
      one = convertCell (beyond (stmt.currentRow + 1) i) column cell bound.target none
  /-- A fetch that does not fail delivers every bound column of the set. -/
  delivers : ∀ beyond set i bound, (sqlFetch beyond stmt).1.positions →
    flStmtCurrentSet stmt = some set → stmt.boundCols[i]? = some bound → bound.bound = true →
    i < set.columns.length → ∃ one, (i, one) ∈ (sqlFetch beyond stmt).1.columns
  /-- What a fetch on a row returns is what the last conversion that had something to say returned. -/
  returns : ∀ beyond, flStmtCurrentSet stmt ≠ none → (sqlFetch beyond stmt).1.ret ≠ .noData →
    (sqlFetch beyond stmt).1.ret =
      (sqlFetch beyond stmt).1.columns.foldl (fun ret one => joinReturn ret one.2.ret) .success
  /-- `SQLGetData` reads the row the statement is on, from within the value or from its end. -/
  getData : ∀ beyond number target read, (sqlGetData beyond stmt number target).1.read = some read →
    ∃ set column cell, flStmtCurrentSet stmt = some set ∧ read.row = stmt.currentRow ∧
      read.index = number.toNat - 1 ∧ set.columns[read.index]? = some column ∧
      set.Indexes read.row read.index ∧ set.cellAt read.row read.index = some cell ∧
      read.offset ≤ (cell.text.getD []).length + 1
  /-- Where it reads nothing, there is no row or no such column. -/
  refuses : ∀ beyond number target, (sqlGetData beyond stmt number target).1.read = none →
    (sqlGetData beyond stmt number target).1.ret =
        .error (flDiagSet "24000" (lit "Not positioned on a row")) ∧
      (∀ set, flStmtCurrentSet stmt = some set → stmt.currentRow < 0 ∨ set.rowCount ≤ stmt.currentRow) ∨
    (sqlGetData beyond stmt number target).1.ret =
        .error (flDiagSet "07009" (lit "Invalid column number")) ∧
      ∀ set, flStmtCurrentSet stmt = some set → columnAt set number = none

theorem getElem?_of_columnAt {set : ResultSet} {number : UInt16} {column : Column}
    (h : columnAt set number = some column) : set.columns[number.toNat - 1]? = some column := by
  unfold columnAt at h
  split at h
  · cases h
  · exact h

section

variable {stmt : Stmt} {set : ResultSet} (hset : flStmtCurrentSet stmt = some set)
  (hrow : stmt.currentRow + 1 < rowLimit set stmt.maxRows) (beyond : Behind)

include hset hrow

/-- Everything a fetch that comes to a row delivers. -/
theorem columns_sqlFetch : (sqlFetch beyond stmt).1.columns =
    (deliverColumns beyond set (stmt.currentRow + 1) 0 (stmt.boundCols.zip set.columns) .success).2 := by
  unfold sqlFetch
  simp only [hset, if_neg (not_le.2 hrow)]

theorem stmt_sqlFetch : (sqlFetch beyond stmt).2 =
    { stmt with currentRow := stmt.currentRow + 1, getdataCol := -1, getdataOffset := 0 } := by
  unfold sqlFetch
  simp only [hset, if_neg (not_le.2 hrow)]

theorem ret_sqlFetch : (sqlFetch beyond stmt).1.ret =
    (deliverColumns beyond set (stmt.currentRow + 1) 0 (stmt.boundCols.zip set.columns) .success).1 := by
  unfold sqlFetch
  simp only [hset, if_neg (not_le.2 hrow)]

end

namespace Stmt.Consistent

variable {stmt : Stmt} (h : stmt.Consistent) {set : ResultSet}
  (hset : flStmtCurrentSet stmt = some set)

include h hset

/-- The row a fetch goes to is one of the set's. -/
theorem nextRow (hrow : stmt.currentRow + 1 < rowLimit set stmt.maxRows) :
    0 ≤ stmt.currentRow + 1 ∧ stmt.currentRow + 1 < set.rowCount := by
  have hnonneg := (h.row set hset).1
  have hlimit := (rowLimit_le (h.rectangular hset).toCounted stmt.maxRows).1
  exact ⟨by omega, lt_of_lt_of_le hrow hlimit⟩

/-- The cells of the row a fetch goes to are there. -/
theorem cellsFrom (hrow : stmt.currentRow + 1 < rowLimit set stmt.maxRows) :
    CellsFrom set (stmt.currentRow + 1) 0 (stmt.boundCols.zip set.columns).length := by
  intro k hk
  rw [List.length_zip, lt_min_iff] at hk
  rw [Nat.zero_add]
  exact ((h.rectangular hset).exists_cell (h.nextRow hset hrow) hk.2).2

end Stmt.Consistent

/-- A fetch that delivers something is on a row. -/
theorem onRow_of_mem_columns {stmt : Stmt} {beyond : Behind} {i : ℕ} {one : Conversion}
    (hmem : (i, one) ∈ (sqlFetch beyond stmt).1.columns) :
    ∃ set, flStmtCurrentSet stmt = some set ∧ stmt.currentRow + 1 < rowLimit set stmt.maxRows := by
  cases hset : flStmtCurrentSet stmt with
  | none =>
    unfold sqlFetch at hmem
    rw [hset] at hmem
    cases hmem
  | some set =>
    refine ⟨set, rfl, ?_⟩
    by_contra hend
    unfold sqlFetch at hmem
    simp only [hset, if_pos (not_lt.1 hend)] at hmem
    cases hmem

/-- A fetch on a set that does not say its end is on a row. -/
theorem onRow_of_ret {stmt : Stmt} {beyond : Behind} {set : ResultSet}
    (hset : flStmtCurrentSet stmt = some set) (hret : (sqlFetch beyond stmt).1.ret ≠ .noData) :
    stmt.currentRow + 1 < rowLimit set stmt.maxRows := by
  by_contra hend
  apply hret
  unfold sqlFetch
  simp only [hset, if_pos (not_lt.1 hend)]

theorem readsInside_of_wellFormed {stmt : Stmt} (h : stmt.WellFormed) : stmt.ReadsInside where
  fetch beyond i one hmem := by
    obtain ⟨set, hset, hrow⟩ := onRow_of_mem_columns hmem
    rw [columns_sqlFetch hset hrow] at hmem
    obtain ⟨k, bound, column, cell, hk, hzip, hbound, hcell, hone⟩ := cell_of_mem_deliverColumns hmem
    rw [Nat.zero_add] at hk
    subst hk
    obtain ⟨hcol, hcolumn⟩ := List.getElem?_zip_eq_some.1 hzip
    have hlt := (List.getElem?_eq_some_iff.1 hcolumn).1
    exact ⟨set, bound, column, cell, hset, hcol, hbound, hcolumn,
      ((h.rectangular hset).exists_cell (h.nextRow hset hrow) hlt).1, hcell, hone⟩
  delivers beyond set i bound hpos hset hcol hbound hi := by
    have hrow := onRow_of_ret hset hpos.2
    have hok := hpos.1
    rw [ret_sqlFetch hset hrow] at hok
    have hzip : (stmt.boundCols.zip set.columns)[i]? = some (bound, set.columns[i]) :=
      List.getElem?_zip_eq_some.2 ⟨hcol, List.getElem?_eq_getElem hi⟩
    obtain ⟨one, hone⟩ := mem_deliverColumns (h.cellsFrom hset hrow) hok hzip hbound
    rw [Nat.zero_add, ← columns_sqlFetch hset hrow] at hone
    exact ⟨one, hone⟩
  returns beyond hsome hret := by
    obtain ⟨set, hset⟩ := Option.ne_none_iff_exists'.1 hsome
    have hrow := onRow_of_ret hset hret
    rw [ret_sqlFetch hset hrow, columns_sqlFetch hset hrow]
    exact ret_deliverColumns (h.cellsFrom hset hrow)
  getData beyond number target read hread := by
    rcases h.sqlGetData_cases beyond number target with ⟨heq, -⟩ | ⟨heq, -⟩ | ⟨column, cell, hcell⟩
    · rw [heq] at hread
      cases hread
    · rw [heq] at hread
      cases hread
    · rw [sqlGetData_onCell beyond hcell] at hread
      cases hread
      obtain ⟨set, hset, hnonneg, hlt, hcolumn, hget⟩ := hcell.exists_set
      exact ⟨set, column, cell, hset, rfl, rfl, getElem?_of_columnAt hcolumn,
        ((h.rectangular hset).exists_cell ⟨hnonneg, hlt⟩ (columnAt_lt hcolumn).2).1, hget,
        h.readOffset_le hcell⟩
  refuses beyond number target hread := by
    rcases h.sqlGetData_cases beyond number target with ⟨heq, hoff⟩ | ⟨heq, hno⟩ | ⟨column, cell, hcell⟩
    · rw [heq]
      exact .inl ⟨rfl, hoff⟩
    · rw [heq]
      exact .inr ⟨rfl, hno⟩
    · rw [sqlGetData_onCell beyond hcell] at hread
      cases hread

/-! ## A statement that was executed and has a column bound -/

def liveDbc : Dbc := { allocDbc with connected := true }

/-- One column, and two rows of it. -/
def twoRows : HttpReply :=
  .answered 200 (lit "\x7b\"success\":true,\"resultSets\":[\x7b\"columns\":[\x7b\"name\":\"N\"," ++
    lit "\"dataType\":\"VARCHAR\"\x7d],\"rows\":[[\"snow\"],[null]]\x7d]\x7d")

/-- What `SQLExecDirect` leaves of a fresh statement when it is answered so. -/
def executed : Stmt :=
  (((StmtCall.execDirect (lit "SELECT n FROM t") sqlNts).run freshStmt liveDbc).play [twoRows]).elim
    freshStmt fun a => a.2.2.1

def charTarget : Target := ⟨.char, true, 100, true⟩

/-- The statement with its first column bound. -/
def executedBound : Stmt := (sqlBindCol executed 1 charTarget).2

/-- The execution, with answers of a size that can come. -/
theorem exists_run_executed : ∃ t answer dbc,
    Runs ((StmtCall.execDirect (lit "SELECT n FROM t") sqlNts).run freshStmt liveDbc) t
      (answer, executed, dbc) ∧ ∀ e ∈ t, e.2.Bounded := by
  have hplay : (((StmtCall.execDirect (lit "SELECT n FROM t") sqlNts).run freshStmt liveDbc).play
      [twoRows]).isSome = true := by decide +kernel
  obtain ⟨⟨t, answer, stmt, dbc⟩, h⟩ := Option.isSome_iff_exists.1 hplay
  have hexec : executed = stmt := by
    unfold executed
    rw [h]
    rfl
  refine ⟨t, answer, dbc, hexec ▸ runs_of_play _ _ h, ?_⟩
  intro e he
  have hmem : e.2 ∈ [twoRows] := answers_of_play _ _ h ▸ List.mem_map_of_mem he
  rw [List.mem_singleton.1 hmem]
  decide +kernel

theorem run_executedBound : Runs ((StmtCall.bindCol 1 charTarget).run executed liveDbc) []
    (.returned (sqlBindCol executed 1 charTarget).1, executedBound, liveDbc) := .done _

theorem reached_executedBound : executedBound.Reached := by
  have halloc : freshStmt.Reached := .alloc (show allocStmt liveDbc = .ok freshStmt from rfl)
  obtain ⟨t, answer, dbc, hrun, hbounded⟩ := exists_run_executed
  exact (halloc.call hrun hbounded).call run_executedBound fun e he => absurd he List.not_mem_nil

/-! ## Every reached state -/

/-- What `SQLGetData` of a column does after a fetch that delivered it. -/
theorem sqlGetData_fetched {stmt : Stmt} (h : stmt.WellFormed) {set : ResultSet}
    (hset : flStmtCurrentSet stmt = some set) (hwide : set.columnCount < 2 ^ 16) {beyond : Behind}
    {i : ℕ} {one : Conversion} (hmem : (i, one) ∈ (sqlFetch beyond stmt).1.columns) :
    ∃ bound column cell, stmt.boundCols[i]? = some bound ∧ bound.bound = true ∧
      one = convertCell (beyond (stmt.currentRow + 1) i) column cell bound.target none ∧
      ∀ target, (sqlGetData beyond (sqlFetch beyond stmt).2 (UInt16.ofNat (i + 1)) target).1 =
        (let one := convertCell (beyond (stmt.currentRow + 1) i) column cell target (some 0)
        { ret := one.ret
          read := some ⟨stmt.currentRow + 1, i, 0⟩
          stored := one.stored
          indicator := one.indicator }) := by
  obtain ⟨set', bound, column, cell, hset', hcol, hbound, hcolumn, -, hcell, hone⟩ :=
    (readsInside_of_wellFormed h).fetch beyond i one hmem
  obtain rfl := Option.some.inj (hset.symm.trans hset')
  obtain ⟨set', hset', hrow⟩ := onRow_of_mem_columns hmem
  obtain rfl := Option.some.inj (hset.symm.trans hset')
  refine ⟨bound, column, cell, hcol, hbound, hone, fun target => ?_⟩
  have hrect := h.rectangular hset
  have hnumber : (UInt16.ofNat (i + 1)).toNat = i + 1 := by
    have hbounds : i < stmt.boundCols.length := (List.getElem?_eq_some_iff.1 hcol).1
    have hcols := h.boundCols
    rw [UInt16.toNat_ofNat']
    omega
  have hat : columnAt set (UInt16.ofNat (i + 1)) = some column := by
    have hlt : i < set.columns.length := (List.getElem?_eq_some_iff.1 hcolumn).1
    have hcount := hrect.columns
    unfold columnAt
    rw [hnumber, if_neg (by omega)]
    exact hcolumn
  have hon : OnCell (sqlFetch beyond stmt).2 (UInt16.ofNat (i + 1)) column cell := by
    obtain ⟨hnonneg, hlt⟩ := h.nextRow hset hrow
    rw [stmt_sqlFetch hset hrow beyond]
    refine ⟨set, hset, hnonneg, hlt, hat, ?_⟩
    rw [hnumber]
    exact hcell
  have hoffset : readOffset (sqlFetch beyond stmt).2 (UInt16.ofNat (i + 1)) = 0 := by
    unfold readOffset
    rw [stmt_sqlFetch hset hrow beyond, hnumber]
    exact if_pos (by dsimp only; omega)
  rw [sqlGetData_onCell beyond hon, hoffset, stmt_sqlFetch hset hrow beyond, hnumber]
  rfl

/-- **Binding a column and reading it are the same.** What a fetch delivers for a bound column is what
`SQLGetData` hands over for it first, with the same target: the same return, the same bytes, the same
length. -/
theorem fetch_agrees_of_reached {stmt : Stmt} (h : stmt.Reached) {set : ResultSet}
    (hset : flStmtCurrentSet stmt = some set) (hwide : set.columnCount < 2 ^ 16) {beyond : Behind}
    {i : ℕ} {one : Conversion} (hmem : (i, one) ∈ (sqlFetch beyond stmt).1.columns) :
    ∃ bound, stmt.boundCols[i]? = some bound ∧ bound.bound = true ∧
      let got := (sqlGetData beyond (sqlFetch beyond stmt).2 (UInt16.ofNat (i + 1)) bound.target).1
      got.read = some ⟨stmt.currentRow + 1, i, 0⟩ ∧ got.ret = one.ret ∧ got.stored = one.stored ∧
        got.indicator = one.indicator := by
  obtain ⟨bound, column, cell, hcol, hbound, rfl, hread⟩ :=
    sqlGetData_fetched (wellFormed_of_reached h) hset hwide hmem
  obtain ⟨hret, hstored, hind⟩ :=
    (convertCell_form (beyond (stmt.currentRow + 1) i) column cell bound.target).fresh
  refine ⟨bound, hcol, hbound, ?_⟩
  rw [hread]
  exact ⟨rfl, hret.symm, hstored.symm, hind.symm⟩

theorem fetch_agrees_of_reached_executed : ∃ i one,
    (i, one) ∈ (sqlFetch (fun _ _ => []) executedBound).1.columns ∧
    ∃ bound, executedBound.boundCols[i]? = some bound ∧ bound.bound = true ∧
      let got := (sqlGetData (fun _ _ => []) (sqlFetch (fun _ _ => []) executedBound).2
        (UInt16.ofNat (i + 1)) bound.target).1
      got.read = some ⟨executedBound.currentRow + 1, i, 0⟩ ∧ got.ret = one.ret ∧
        got.stored = one.stored ∧ got.indicator = one.indicator := by
  have hsome : (flStmtCurrentSet executedBound).isSome = true := by decide +kernel
  have hnarrow : ((flStmtCurrentSet executedBound).all fun set => set.columnCount < 2 ^ 16) = true := by
    decide +kernel
  have hone : ((sqlFetch (fun _ _ => []) executedBound).1.columns.isEmpty) = false := by decide +kernel
  obtain ⟨set, hset⟩ := Option.isSome_iff_exists.1 hsome
  rw [hset, Option.all_some, decide_eq_true_iff] at hnarrow
  obtain ⟨⟨i, one⟩, rest, hcolumns⟩ := List.exists_cons_of_ne_nil (List.isEmpty_eq_false_iff.1 hone)
  have hmem : (i, one) ∈ (sqlFetch (fun _ _ => []) executedBound).1.columns := by
    rw [hcolumns]
    exact List.mem_cons_self ..
  exact ⟨i, one, hmem, fetch_agrees_of_reached reached_executedBound hset hnarrow hmem⟩

end FrostlakeOdbc
