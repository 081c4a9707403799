import FrostlakeOdbc.ChunkProof

/-!
# The cursor of a statement

What any sequence of calls on a statement goes through, told by the calls and their answers alone:
`CursorLaw`. It follows from `Tracks`, which ties the fields of the statement to the calls made so
far and which one call keeps (`Tracks.perform`).
-/

namespace FrostlakeOdbc

open CString

/-! ## Calls and their answers -/

inductive CursorCall : Type where
  | fetch
  | getData (number : UInt16) (target : Target)
  | bindCol (number : UInt16) (target : Target)
  | moreResults
  | setMaxRows (value : ℕ)

/-- A call with what it answers, the cell it reads, and the statement it leaves. -/
structure CursorEvent where
  call : CursorCall
  ret : SqlReturn
  read : Option CellRead
  after : Stmt

def perform (beyond : Behind) (stmt : Stmt) : CursorCall → CursorEvent
  | .fetch =>
      let (fetched, after) := sqlFetch beyond stmt
      ⟨.fetch, fetched.ret, none, after⟩
  | .getData number target =>
      let (got, after) := sqlGetData beyond stmt number target
      ⟨.getData number target, got.ret, got.read, after⟩
  | .bindCol number target =>
      let (ret, after) := sqlBindCol stmt number target
      ⟨.bindCol number target, ret, none, after⟩
  | .moreResults =>
      let (ret, after) := sqlMoreResults stmt
      ⟨.moreResults, ret, none, after⟩
  | .setMaxRows value =>
      let (ret, after) := setMaxRows stmt value
      ⟨.setMaxRows value, ret, none, after⟩

/-- The calls one after the other. -/
def performAll (beyond : Behind) : Stmt → List CursorCall → List CursorEvent
  | _, [] => []
  | stmt, call :: calls =>
      perform beyond stmt call :: performAll beyond (perform beyond stmt call).after calls

/-- A statement whose execution was just answered with a response. -/
structure JustExecuted (response : Response) (stmt : Stmt) : Prop where
  response_eq : stmt.response = some response
  synth : stmt.synth = none
  currentSet : stmt.currentSet = 0
  currentRow : stmt.currentRow = -1

/-- A set whose rows an `int` counts. -/
structure ResultSet.Counted (set : ResultSet) : Prop where
  nonneg : 0 ≤ set.rowCount
  lt : set.rowCount < 2 ^ 31

/-! ## What the calls so far come to -/

def CursorCall.isFetch : CursorCall → Bool
  | .fetch => true
  | _ => false

def CursorCall.isMoreResults : CursorCall → Bool
  | .moreResults => true
  | _ => false

namespace CursorEvent

/-- The call went on to the next set. -/
def opensSet (e : CursorEvent) : Bool := e.call.isMoreResults && e.ret = .success

/-- A `SQLFetch` that positioned on a row. -/
def positions (e : CursorEvent) : Bool := e.call.isFetch && e.ret ≠ .noData

/-- A `SQLFetch` that found no more rows. -/
def exhausts (e : CursorEvent) : Bool := e.call.isFetch && e.ret = .noData

end CursorEvent

/-- The set the calls lead to. -/
def setIndex (es : List CursorEvent) : ℕ := es.countP CursorEvent.opensSet

/-- The calls on the current set. -/
def onCurrentSet (es : List CursorEvent) : List CursorEvent :=
  es.foldl (fun current e => if e.opensSet then [] else current ++ [e]) []

/-- The number of rows positioned on in the current set. -/
def rowsFetched (es : List CursorEvent) : ℕ := (onCurrentSet es).countP CursorEvent.positions

/-- The `SQL_ATTR_MAX_ROWS` in force. -/
def maxRowsInForce (initial : ℕ) (es : List CursorEvent) : ℕ :=
  es.foldl (fun value e => match e.call with | .setMaxRows value => value | _ => value) initial

/-- The last `SQLFetch` on the current set is `fetch`, with `behind` behind it. -/
structure LastFetch (es : List CursorEvent) (fetch : CursorEvent) (behind : List CursorEvent) :
    Prop where
  split : ∃ before, onCurrentSet es = before ++ fetch :: behind
  isFetch : fetch.call.isFetch = true
  behind : ∀ e ∈ behind, e.call.isFetch = false

/-- What a call answers behind the calls `es`. -/
structure Lawful (response : Response) (initial : ℕ) (es : List CursorEvent) (e : CursorEvent) :
    Prop where
  /-- The sets come in order, each once. -/
  moreResults : e.call = .moreResults →
    e.after.currentSet = setIndex (es ++ [e]) ∧
    (e.ret = .success ∧ setIndex es + 1 < response.sets.length ∨
      e.ret = .noData ∧ response.sets.length ≤ setIndex es + 1)
  /-- The rows of a set come in order, up to its end and the limit. -/
  fetch : e.call = .fetch → ∀ set, response.sets[setIndex es]? = some set → e.ret ≠ .noData →
    e.after.currentRow = rowsFetched es ∧ (rowsFetched es : ℤ) < set.rowCount ∧
    (maxRowsInForce initial es ≠ 0 → rowsFetched es < maxRowsInForce initial es)
  /-- The end of a set stays its end. -/
  exhausted : e.call = .fetch → (∃ f ∈ onCurrentSet es, f.exhausts = true) → e.ret = .noData
  /-- Only the row of the last `SQLFetch` is read, and from its start. -/
  getData : ∀ number target, e.call = .getData number target →
    (e.read.isSome ∨ e.ret = .success ∨ ∃ diag, e.ret = .successWithInfo diag) →
    ∃ fetch behind offset, LastFetch es fetch behind ∧ fetch.positions = true ∧
      e.read = some ⟨fetch.after.currentRow, number.toNat - 1, offset⟩ ∧
      ((∀ f ∈ behind, f.read = none) → offset = 0)

/-- Every call of a run is lawful. -/
def CursorLaw (response : Response) (initial : ℕ) (es : List CursorEvent) : Prop :=
  ∀ early e late, es = early ++ e :: late → Lawful response initial early e

/-! ## Going on by one call -/

section append

variable {es : List CursorEvent} {e : CursorEvent}

theorem onCurrentSet_append :
    onCurrentSet (es ++ [e]) = if e.opensSet then [] else onCurrentSet es ++ [e] := by
  rw [onCurrentSet, List.foldl_append]
  rfl

theorem setIndex_append : setIndex (es ++ [e]) = setIndex es + if e.opensSet then 1 else 0 := by
  unfold setIndex
  rw [List.countP_append, List.countP_singleton]

theorem rowsFetched_append (h : e.opensSet = false) :
    rowsFetched (es ++ [e]) = rowsFetched es + if e.positions then 1 else 0 := by
  unfold rowsFetched
  rw [onCurrentSet_append, if_neg (by simp [h]), List.countP_append, List.countP_singleton]

theorem rowsFetched_of_opensSet (h : e.opensSet = true) : rowsFetched (es ++ [e]) = 0 := by
  unfold rowsFetched
  rw [onCurrentSet_append, if_pos h, List.countP_nil]

theorem LastFetch.append {fetch : CursorEvent} {behind : List CursorEvent}
    (h : LastFetch es fetch behind) (hopens : e.opensSet = false) (he : e.call.isFetch = false) :
    LastFetch (es ++ [e]) fetch (behind ++ [e]) := by
  obtain ⟨before, hsplit⟩ := h.split
  refine ⟨⟨before, ?_⟩, h.isFetch, ?_⟩
  · rw [onCurrentSet_append, if_neg (by simp [hopens]), hsplit, List.append_assoc, List.cons_append]
  · intro f hf
    rcases List.mem_append.1 hf with hf | hf
    · exact h.behind f hf
    · rw [List.mem_singleton.1 hf]
      exact he

theorem LastFetch.self (hopens : e.opensSet = false) (he : e.call.isFetch = true) :
    LastFetch (es ++ [e]) e [] := by
  refine ⟨⟨onCurrentSet es, ?_⟩, he, fun f hf => absurd hf List.not_mem_nil⟩
  rw [onCurrentSet_append, if_neg (by simp [hopens])]

end append

/-! ## What one call does -/

section ret

variable (target : Target)

theorem chunked_ret_ne {total : ℕ} {k : ℕ → Conversion} (h : (k 0).ret ≠ .noData) :
    (chunked target none total k).ret ≠ .noData := by
  unfold chunked
  rw [Option.getD_none, if_neg (Nat.not_lt_zero total)]
  split
  · exact SqlReturn.noConfusion
  · exact h

theorem deliver_ret_ne (offset : Option ℕ) (total start copy : ℕ) (content : Bytes) :
    (deliver target offset total start copy content).ret ≠ .noData := by
  show (if copy < total - start then SqlReturn.successWithInfo truncated else .success) ≠ .noData
  split <;> exact SqlReturn.noConfusion

theorem convertChar_ret_ne (text : Bytes) : (convertChar text target none).ret ≠ .noData :=
  chunked_ret_ne target (deliver_ret_ne target _ _ _ _ _)

theorem convertRaw_ret_ne (text : Bytes) : (convertRaw text target none).ret ≠ .noData :=
  chunked_ret_ne target (deliver_ret_ne target _ _ _ _ _)

theorem convertHex_ret_ne (text : Bytes) : (convertHex text target none).ret ≠ .noData := by
  apply chunked_ret_ne
  dsimp only
  generalize decodeHex _ _ = decoded
  by_cases hok : decoded.2 = true
  · rw [if_pos hok]
    exact deliver_ret_ne target _ _ _ _ _
  · rw [if_neg hok]
    exact SqlReturn.noConfusion

theorem convertInteger_ret_ne (low high : ℤ) (size : ℕ) (text : Bytes) :
    (convertInteger low high size text target none).ret ≠ .noData := by
  unfold convertInteger
  split
  · exact SqlReturn.noConfusion
  · exact SqlReturn.noConfusion
  · split <;> exact SqlReturn.noConfusion

theorem convertFloating_ret_ne (size : ℤ) (store : Bytes → Stored) (text : Bytes) :
    (convertFloating size store text target none).ret ≠ .noData := by
  unfold convertFloating
  split <;> exact SqlReturn.noConfusion

theorem convertBit_ret_ne (text : Bytes) : (convertBit text target none).ret ≠ .noData := by
  unfold convertBit
  repeat' split
  all_goals exact SqlReturn.noConfusion

theorem convertTemporal_ret_ne (size : ℤ) (name : String) (parsed : Option Stored) (text : Bytes) :
    (convertTemporal size name parsed text target none).ret ≠ .noData := by
  unfold convertTemporal
  split <;> exact SqlReturn.noConfusion

/-- A cell that is not read in pieces is never at its end. -/
theorem convertCell_ret_ne (behind : Bytes) (column : Column) (cell : Cell) :
    (convertCell behind column cell target none).ret ≠ .noData := by
  unfold convertCell
  split
  · split <;> exact SqlReturn.noConfusion
  · dsimp only
    generalize (if target.cType = CType.default then _ else _ : CType) = cType
    unfold convertText
    cases cType
    case char => exact convertChar_ret_ne target _
    case binary =>
      dsimp only
      split
      · exact convertHex_ret_ne target _
      · exact convertRaw_ret_ne target _
    case default => exact SqlReturn.noConfusion
    case other => exact SqlReturn.noConfusion
    case float => exact convertFloating_ret_ne target _ _ _
    case double => exact convertFloating_ret_ne target _ _ _
    case bit => exact convertBit_ret_ne target _
    case typeDate => exact convertTemporal_ret_ne target _ _ _ _
    case typeTime => exact convertTemporal_ret_ne target _ _ _ _
    case typeTimestamp => exact convertTemporal_ret_ne target _ _ _ _
    all_goals exact convertInteger_ret_ne target _ _ _ _

end ret

theorem deliverColumns_ret_ne (beyond : Behind) (set : ResultSet) (row : ℤ) (i : ℕ)
    (columns : List (BoundCol × Column)) {ret : SqlReturn} (hret : ret ≠ .noData) :
    (deliverColumns beyond set row i columns ret).1 ≠ .noData := by
  induction columns generalizing i ret with
  | nil => exact hret
  | cons head rest ih =>
    obtain ⟨bound, column⟩ := head
    unfold deliverColumns
    split
    · exact ih (i + 1) hret
    · split
      · exact hret
      · rename_i cell _
        have hone := convertCell_ret_ne bound.target (beyond row i) column cell
        dsimp only
        split
        · exact ih (i + 1) hret
        · exact ih (i + 1) SqlReturn.noConfusion
        · exact hone

/-- Everything `SQLFetch` can do. -/
theorem sqlFetch_cases (beyond : Behind) (stmt : Stmt) :
    (flStmtCurrentSet stmt = none ∧ (∃ diag, (sqlFetch beyond stmt).1.ret = .error diag) ∧
      (sqlFetch beyond stmt).2 = stmt) ∨
    ∃ set, flStmtCurrentSet stmt = some set ∧
      ((rowLimit set stmt.maxRows ≤ stmt.currentRow + 1 ∧ (sqlFetch beyond stmt).1.ret = .noData ∧
        (sqlFetch beyond stmt).2 = { stmt with currentRow := set.rowCount }) ∨
      (stmt.currentRow + 1 < rowLimit set stmt.maxRows ∧ (sqlFetch beyond stmt).1.ret ≠ .noData ∧
        (sqlFetch beyond stmt).2 =
          { stmt with currentRow := stmt.currentRow + 1, getdataCol := -1, getdataOffset := 0 })) := by
  unfold sqlFetch
  cases hset : flStmtCurrentSet stmt with
  | none => exact Or.inl ⟨rfl, ⟨_, rfl⟩, rfl⟩
  | some set =>
    refine Or.inr ⟨set, rfl, ?_⟩
    by_cases hend : rowLimit set stmt.maxRows ≤ stmt.currentRow + 1
    · simp only [if_pos hend]
      exact Or.inl ⟨hend, trivial, trivial⟩
    · simp only [if_neg hend]
      exact Or.inr ⟨lt_of_not_ge hend, deliverColumns_ret_ne _ _ _ _ _ SqlReturn.noConfusion, trivial⟩

/-- Everything `SQLGetData` can do: it fails without reading, or reads the cell it is on. -/
theorem sqlGetData_cases (beyond : Behind) (stmt : Stmt) (number : UInt16) (target : Target) :
    (∃ diag col offset, sqlGetData beyond stmt number target =
        ({ ret := .error diag }, { stmt with getdataCol := col, getdataOffset := offset }) ∧
      (stmt.getdataOffset = 0 → offset = 0)) ∨
    ∃ column cell, OnCell stmt number column cell := by
  unfold sqlGetData
  cases hset : flStmtCurrentSet stmt with
  | none => exact Or.inl ⟨_, stmt.getdataCol, stmt.getdataOffset, rfl, id⟩
  | some set =>
    dsimp only
    by_cases hrow : stmt.currentRow < 0 ∨ set.rowCount ≤ stmt.currentRow
    · rw [if_pos hrow]
      exact Or.inl ⟨_, stmt.getdataCol, stmt.getdataOffset, rfl, id⟩
    · rw [if_neg hrow]
      cases hcolumn : columnAt set number with
      | none => exact Or.inl ⟨_, stmt.getdataCol, stmt.getdataOffset, rfl, id⟩
      | some column =>
        cases hcell : set.cellAt stmt.currentRow (number.toNat - 1) with
        | none =>
          left
          by_cases hcol : stmt.getdataCol ≠ number.toNat
          · simp only [if_pos hcol, hcell]
            exact ⟨_, number.toNat, 0, rfl, fun _ => rfl⟩
          · simp only [if_neg hcol, hcell]
            exact ⟨_, stmt.getdataCol, stmt.getdataOffset, rfl, id⟩
        | some cell =>
          exact Or.inr ⟨column, cell, set, hset, by omega, by omega, hcolumn, hcell⟩

/-- Everything `SQLMoreResults` can do on a response. -/
theorem sqlMoreResults_cases {response : Response} {stmt : Stmt}
    (hresponse : stmt.response = some response) (hsynth : stmt.synth = none) :
    (response.sets.length ≤ stmt.currentSet + 1 ∧ sqlMoreResults stmt = (.noData, stmt)) ∨
    (stmt.currentSet + 1 < response.sets.length ∧ ∃ rowCount, sqlMoreResults stmt = (.success,
      { stmt with
        currentSet := stmt.currentSet + 1
        currentRow := -1
        rowCount := rowCount
        getdataCol := -1
        getdataOffset := 0 })) := by
  unfold sqlMoreResults
  rw [hresponse, hsynth]
  dsimp only
  by_cases hend : response.sets.length ≤ stmt.currentSet + 1
  · rw [if_pos hend]
    exact Or.inl ⟨hend, rfl⟩
  · rw [if_neg hend]
    exact Or.inr ⟨lt_of_not_ge hend, _, rfl⟩

theorem sqlBindCol_cases (stmt : Stmt) (number : UInt16) (target : Target) :
    (sqlBindCol stmt number target).1 ≠ .noData ∧
    ∃ boundCols, (sqlBindCol stmt number target).2 = { stmt with boundCols := boundCols } := by
  unfold sqlBindCol
  split
  · exact ⟨SqlReturn.noConfusion, stmt.boundCols, rfl⟩
  · exact ⟨SqlReturn.noConfusion, _, rfl⟩

/-- The limit is within the rows of the set and within `SQL_ATTR_MAX_ROWS`. -/
theorem rowLimit_le {set : ResultSet} (h : set.Counted) (maxRows : ℕ) :
    rowLimit set maxRows ≤ set.rowCount ∧ (maxRows ≠ 0 → rowLimit set maxRows ≤ maxRows) := by
  have hnonneg := h.nonneg
  have hlt := h.lt
  have hmod : set.rowCount % 2 ^ 64 = set.rowCount := Int.emod_eq_of_lt hnonneg (by omega)
  unfold rowLimit
  rw [hmod]
  by_cases hlimit : 0 < maxRows ∧ (maxRows : ℤ) < set.rowCount
  · rw [if_pos hlimit, toInt_of_lt (by omega)]
    exact ⟨hlimit.2.le, fun _ => le_rfl⟩
  · rw [if_neg hlimit]
    exact ⟨le_rfl, fun hne => by omega⟩

/-! ## The invariant -/

/-- The statement is on the row the last `SQLFetch` positioned on, and reads from its start if
nothing was read yet. -/
def OnFetched (es : List CursorEvent) (stmt : Stmt) : Prop :=
  ∃ fetch behind, LastFetch es fetch behind ∧ fetch.positions = true ∧
    fetch.after.currentRow = stmt.currentRow ∧
    ((∀ f ∈ behind, f.read = none) → stmt.getdataOffset = 0)

/-- Where the calls leave a statement in a set: at its end, or on the last of the rows they fetched. -/
def Positioned (es : List CursorEvent) (stmt : Stmt) (set : ResultSet) : Prop :=
  (∃ f ∈ onCurrentSet es, f.exhausts = true) ∧ stmt.currentRow = set.rowCount ∨
  (∀ f ∈ onCurrentSet es, f.exhausts = false) ∧ stmt.currentRow = rowsFetched es - 1 ∧
    (rowsFetched es : ℤ) ≤ set.rowCount ∧ (0 < rowsFetched es → OnFetched es stmt)

/-- What the fields of a statement say of the calls so far. -/
structure Tracks (response : Response) (initial : ℕ) (es : List CursorEvent) (stmt : Stmt) :
    Prop where
  response_eq : stmt.response = some response
  synth : stmt.synth = none
  currentSet : stmt.currentSet = setIndex es
  maxRows : stmt.maxRows = maxRowsInForce initial es
  position : ∀ set, response.sets[setIndex es]? = some set → Positioned es stmt set
  noSet : response.sets[setIndex es]? = none → ∀ f ∈ onCurrentSet es, f.exhausts = false

variable {response : Response} {initial : ℕ} {es : List CursorEvent} {stmt : Stmt} {e : CursorEvent}

theorem JustExecuted.tracks (h : JustExecuted response stmt)
    (hcounted : ∀ set ∈ response.sets, set.Counted) :
    Tracks response stmt.maxRows [] stmt where
  response_eq := h.response_eq
  synth := h.synth
  currentSet := h.currentSet
  maxRows := rfl
  position set hset := by
    refine Or.inr ⟨fun f hf => absurd hf List.not_mem_nil, h.currentRow, ?_, ?_⟩
    · exact (hcounted set (List.mem_of_getElem? hset)).nonneg
    · exact fun hpos => absurd hpos (lt_irrefl 0)
  noSet _ f hf := absurd hf List.not_mem_nil

theorem Tracks.flStmtCurrentSet_eq (h : Tracks response initial es stmt) :
    flStmtCurrentSet stmt = response.sets[setIndex es]? := by
  unfold flStmtCurrentSet
  rw [h.synth, h.response_eq, ← h.currentSet]
  rfl

theorem maxRowsInForce_append :
    maxRowsInForce initial (es ++ [e]) =
      match e.call with | .setMaxRows value => value | _ => maxRowsInForce initial es := by
  rw [maxRowsInForce, List.foldl_append]
  rfl

theorem exhausts_of_not_fetch (h : e.call.isFetch = false) : e.exhausts = false := by
  unfold CursorEvent.exhausts
  rw [h, Bool.false_and]

theorem positions_of_not_fetch (h : e.call.isFetch = false) : e.positions = false := by
  unfold CursorEvent.positions
  rw [h, Bool.false_and]

theorem opensSet_of_fetch (h : e.call = .fetch) : e.opensSet = false := by
  unfold CursorEvent.opensSet
  rw [h]
  rfl

theorem mem_onCurrentSet_append (h : e.opensSet = false) {f : CursorEvent} :
    f ∈ onCurrentSet (es ++ [e]) ↔ f ∈ onCurrentSet es ∨ f = e := by
  rw [onCurrentSet_append, if_neg (by simp [h]), List.mem_append, List.mem_singleton]

/-- A call that leaves the cursor where it is. -/
theorem Tracks.stay (h : Tracks response initial es stmt) (hopens : e.opensSet = false)
    (hfetch : e.call.isFetch = false) (hresponse : e.after.response = stmt.response)
    (hsynth : e.after.synth = stmt.synth) (hset : e.after.currentSet = stmt.currentSet)
    (hrow : e.after.currentRow = stmt.currentRow)
    (hmax : e.after.maxRows = maxRowsInForce initial (es ++ [e]))
    (hoffset : e.read = none → stmt.getdataOffset = 0 → e.after.getdataOffset = 0) :
    Tracks response initial (es ++ [e]) e.after := by
  have hindex : setIndex (es ++ [e]) = setIndex es := by
    rw [setIndex_append, if_neg (by simp [hopens]), Nat.add_zero]
  have hrows : rowsFetched (es ++ [e]) = rowsFetched es := by
    rw [rowsFetched_append hopens, if_neg (by simp [positions_of_not_fetch hfetch]), Nat.add_zero]
  have hnone : (∀ f ∈ onCurrentSet es, f.exhausts = false) →
      ∀ f ∈ onCurrentSet (es ++ [e]), f.exhausts = false := by
    intro hall f hf
    rcases (mem_onCurrentSet_append hopens).1 hf with hf | rfl
    · exact hall f hf
    · exact exhausts_of_not_fetch hfetch
  refine ⟨hresponse.trans h.response_eq, hsynth.trans h.synth, ?_, hmax, ?_, ?_⟩
  · rw [hset, h.currentSet, hindex]
  · intro set hget
    rw [hindex] at hget
    unfold Positioned
    rw [hrow, hrows]
    rcases h.position set hget with ⟨⟨f, hf, hexhausts⟩, hend⟩ | ⟨hall, hcur, hle, hon⟩
    · exact Or.inl ⟨⟨f, (mem_onCurrentSet_append hopens).2 (Or.inl hf), hexhausts⟩, hend⟩
    · refine Or.inr ⟨hnone hall, hcur, hle, fun hpos => ?_⟩
      obtain ⟨fetch, behind, hlast, hpositions, hsame, hfresh⟩ := hon hpos
      refine ⟨fetch, behind ++ [e], hlast.append hopens hfetch, hpositions, by rw [hsame, hrow], ?_⟩
      intro hunread
      exact hoffset (hunread e (by simp)) (hfresh fun f hf => hunread f (by simp [hf]))
  · intro hget
    rw [hindex] at hget
    exact hnone (h.noSet hget)

/-! ## One step for each call -/

variable (beyond : Behind)

/-- A call that is neither `SQLFetch`, `SQLGetData` nor `SQLMoreResults` promises nothing. -/
theorem Lawful.of_other (hmore : e.call.isMoreResults = false) (hfetch : e.call.isFetch = false)
    (hget : ∀ number target, e.call ≠ .getData number target) : Lawful response initial es e where
  moreResults h := by
    rw [h] at hmore
    cases hmore
  fetch h := by
    rw [h] at hfetch
    cases hfetch
  exhausted h := by
    rw [h] at hfetch
    cases hfetch
  getData number target h := absurd h (hget number target)

theorem step_setMaxRows (h : Tracks response initial es stmt) (value : ℕ) :
    Lawful response initial es (perform beyond stmt (.setMaxRows value)) ∧
    Tracks response initial (es ++ [perform beyond stmt (.setMaxRows value)])
      (perform beyond stmt (.setMaxRows value)).after := by
  refine ⟨Lawful.of_other rfl rfl fun _ _ => CursorCall.noConfusion, ?_⟩
  apply h.stay rfl rfl rfl rfl rfl rfl
  · rw [maxRowsInForce_append]
    rfl
  · exact fun _ hzero => hzero

theorem step_bindCol (h : Tracks response initial es stmt) (number : UInt16) (target : Target) :
    Lawful response initial es (perform beyond stmt (.bindCol number target)) ∧
    Tracks response initial (es ++ [perform beyond stmt (.bindCol number target)])
      (perform beyond stmt (.bindCol number target)).after := by
  refine ⟨Lawful.of_other rfl rfl fun _ _ => CursorCall.noConfusion, ?_⟩
  obtain ⟨-, boundCols, hafter⟩ := sqlBindCol_cases stmt number target
  have hstmt : (perform beyond stmt (.bindCol number target)).after =
      { stmt with boundCols := boundCols } := hafter
  apply h.stay rfl rfl
  · rw [hstmt]
  · rw [hstmt]
  · rw [hstmt]
  · rw [hstmt]
  · rw [hstmt, maxRowsInForce_append]
    exact h.maxRows
  · intro _ hzero
    rw [hstmt]
    exact hzero

theorem step_getData (h : Tracks response initial es stmt) (number : UInt16) (target : Target) :
    Lawful response initial es (perform beyond stmt (.getData number target)) ∧
    Tracks response initial (es ++ [perform beyond stmt (.getData number target)])
      (perform beyond stmt (.getData number target)).after := by
  have hmax : maxRowsInForce initial (es ++ [perform beyond stmt (.getData number target)]) =
      stmt.maxRows := by
    rw [maxRowsInForce_append, h.maxRows]
    rfl
  rcases sqlGetData_cases beyond stmt number target with
    ⟨diag, col, offset, hgot, hzero⟩ | ⟨column, cell, hcell⟩
  · have hevent : perform beyond stmt (.getData number target) =
        ⟨.getData number target, .error diag, none,
          { stmt with getdataCol := col, getdataOffset := offset }⟩ := by
      simp only [perform, hgot]
    rw [hevent] at hmax ⊢
    constructor
    · refine ⟨CursorCall.noConfusion, CursorCall.noConfusion, CursorCall.noConfusion, ?_⟩
      intro _ _ _ hread
      simp at hread
    · exact h.stay rfl rfl rfl rfl rfl rfl hmax.symm fun _ => hzero
  · have hgot := sqlGetData_onCell beyond hcell target
    generalize convertCell _ column cell target _ = one at hgot
    have hevent : perform beyond stmt (.getData number target) =
        ⟨.getData number target, one.ret,
          some ⟨stmt.currentRow, number.toNat - 1, readOffset stmt number⟩,
          afterRead stmt number (one.offset.getD 0)⟩ := by
      simp only [perform, hgot]
    rw [hevent] at hmax ⊢
    constructor
    · refine ⟨CursorCall.noConfusion, CursorCall.noConfusion, CursorCall.noConfusion, ?_⟩
      intro number' target' hcall _
      obtain ⟨rfl, rfl⟩ := CursorCall.getData.inj hcall
      -- the statement is on a row, so it is not at the end of the set and has fetched
      obtain ⟨set, hset, hrow, hlt, -, -⟩ := hcell.exists_set
      rw [h.flStmtCurrentSet_eq] at hset
      rcases h.position set hset with ⟨-, hend⟩ | ⟨-, hcur, -, hon⟩
      · omega
      · obtain ⟨fetch, behind, hlast, hpositions, hsame, hfresh⟩ := hon (by omega)
        refine ⟨fetch, behind, readOffset stmt number, hlast, hpositions, by rw [hsame], ?_⟩
        intro hunread
        unfold readOffset
        rw [hfresh hunread, ite_self]
    · exact h.stay rfl rfl rfl rfl rfl rfl hmax.symm fun hread => by cases hread

theorem step_moreResults (h : Tracks response initial es stmt)
    (hcounted : ∀ set ∈ response.sets, set.Counted) :
    Lawful response initial es (perform beyond stmt .moreResults) ∧
    Tracks response initial (es ++ [perform beyond stmt .moreResults])
      (perform beyond stmt .moreResults).after := by
  have hmax : maxRowsInForce initial (es ++ [perform beyond stmt .moreResults]) = stmt.maxRows := by
    rw [maxRowsInForce_append, h.maxRows]
    rfl
  rcases sqlMoreResults_cases h.response_eq h.synth with ⟨hend, hmore⟩ | ⟨hnext, rowCount, hmore⟩
  · have hevent : perform beyond stmt .moreResults = ⟨.moreResults, .noData, none, stmt⟩ := by
      simp only [perform, hmore]
    rw [hevent] at hmax ⊢
    rw [h.currentSet] at hend
    have htracks := h.stay (e := ⟨.moreResults, .noData, none, stmt⟩) rfl rfl rfl rfl rfl rfl hmax.symm
      fun _ => id
    refine ⟨⟨fun _ => ⟨htracks.currentSet, Or.inr ⟨rfl, hend⟩⟩, CursorCall.noConfusion,
      CursorCall.noConfusion, fun _ _ => CursorCall.noConfusion⟩, htracks⟩
  · have hevent : perform beyond stmt .moreResults = ⟨.moreResults, .success, none,
        { stmt with
          currentSet := stmt.currentSet + 1
          currentRow := -1
          rowCount := rowCount
          getdataCol := -1
          getdataOffset := 0 }⟩ := by
      simp only [perform, hmore]
    rw [hevent] at hmax ⊢
    rw [h.currentSet] at hnext hmax ⊢
    constructor
    · refine ⟨fun _ => ⟨?_, Or.inl ⟨rfl, hnext⟩⟩, CursorCall.noConfusion, CursorCall.noConfusion,
        fun _ _ => CursorCall.noConfusion⟩
      rw [setIndex_append]
      rfl
    · refine ⟨h.response_eq, h.synth, ?_, hmax.symm, ?_, ?_⟩
      · rw [setIndex_append]
        rfl
      · intro set hset
        refine Or.inr ⟨?_, ?_⟩
        · rw [onCurrentSet_append]
          exact fun f hf => absurd hf List.not_mem_nil
        · rw [rowsFetched_of_opensSet rfl]
          exact ⟨rfl, (hcounted set (List.mem_of_getElem? hset)).nonneg,
            fun hpos => absurd hpos (lt_irrefl 0)⟩
      · intro _
        rw [onCurrentSet_append]
        exact fun f hf => absurd hf List.not_mem_nil

theorem Lawful.of_fetch (hcall : e.call = .fetch)
    (hrow : ∀ set, response.sets[setIndex es]? = some set → e.ret ≠ .noData →
      e.after.currentRow = rowsFetched es ∧ (rowsFetched es : ℤ) < set.rowCount ∧
      (maxRowsInForce initial es ≠ 0 → rowsFetched es < maxRowsInForce initial es))
    (hend : (∃ f ∈ onCurrentSet es, f.exhausts = true) → e.ret = .noData) :
    Lawful response initial es e where
  moreResults h := by
    rw [hcall] at h
    cases h
  fetch _ := hrow
  exhausted _ := hend
  getData number target h := by
    rw [hcall] at h
    cases h

/-- A `SQLFetch` goes nowhere but to a row of the same set. -/
theorem Tracks.fetched (h : Tracks response initial es stmt) (hcall : e.call = .fetch) {row col : ℤ}
    {offset : ℕ}
    (hafter : e.after = { stmt with currentRow := row, getdataCol := col, getdataOffset := offset })
    (hposition : ∀ set, response.sets[setIndex es]? = some set → Positioned (es ++ [e]) e.after set)
    (hnone : response.sets[setIndex es]? = none → e.exhausts = false) :
    Tracks response initial (es ++ [e]) e.after := by
  have hopens := opensSet_of_fetch hcall
  have hindex : setIndex (es ++ [e]) = setIndex es := by
    rw [setIndex_append, if_neg (by simp [hopens]), Nat.add_zero]
  refine ⟨?_, ?_, ?_, ?_, ?_, ?_⟩
  · rw [hafter]
    exact h.response_eq
  · rw [hafter]
    exact h.synth
  · rw [hindex, hafter]
    exact h.currentSet
  · rw [hafter, maxRowsInForce_append, hcall]
    exact h.maxRows
  · rw [hindex]
    exact hposition
  · intro hset f hf
    rw [hindex] at hset
    rcases (mem_onCurrentSet_append hopens).1 hf with hf | rfl
    · exact h.noSet hset f hf
    · exact hnone hset

theorem fetch_noSet (h : Tracks response initial es stmt) (hcall : e.call = .fetch)
    (hset : response.sets[setIndex es]? = none) {diag : Diag} (herror : e.ret = .error diag)
    (hafter : e.after = stmt) :
    Lawful response initial es e ∧ Tracks response initial (es ++ [e]) e.after := by
  have hexhausts : e.exhausts = false := by simp [CursorEvent.exhausts, herror]
  constructor
  · refine Lawful.of_fetch hcall (fun set' hset' => ?_) fun ⟨f, hf, hexhausts⟩ => ?_
    · rw [hset] at hset'
      cases hset'
    · rw [h.noSet hset f hf] at hexhausts
      cases hexhausts
  · refine h.fetched hcall hafter (fun set' hset' => ?_) fun _ => hexhausts
    rw [hset] at hset'
    cases hset'

theorem fetch_end (h : Tracks response initial es stmt) (hcall : e.call = .fetch) {set : ResultSet}
    (hset : response.sets[setIndex es]? = some set) (hnoData : e.ret = .noData)
    (hafter : e.after = { stmt with currentRow := set.rowCount }) :
    Lawful response initial es e ∧ Tracks response initial (es ++ [e]) e.after := by
  have hexhausts : e.exhausts = true := by simp [CursorEvent.exhausts, CursorCall.isFetch, hcall, hnoData]
  refine ⟨Lawful.of_fetch hcall (fun _ _ hret => absurd hnoData hret) fun _ => hnoData, ?_⟩
  refine h.fetched hcall hafter (fun set' hset' => ?_) fun hset' => ?_
  · rw [hset] at hset'
    cases hset'
    have hself : e ∈ onCurrentSet (es ++ [e]) :=
      (mem_onCurrentSet_append (opensSet_of_fetch hcall)).2 (Or.inr rfl)
    refine Or.inl ⟨⟨e, hself, hexhausts⟩, ?_⟩
    rw [hafter]
  · rw [hset] at hset'
    cases hset'

theorem fetch_row (h : Tracks response initial es stmt) (hcall : e.call = .fetch) {set : ResultSet}
    (hset : response.sets[setIndex es]? = some set) (hcounted : set.Counted)
    (hlimit : stmt.currentRow + 1 < rowLimit set stmt.maxRows) (hrow : e.ret ≠ .noData)
    (hafter : e.after =
      { stmt with currentRow := stmt.currentRow + 1, getdataCol := -1, getdataOffset := 0 }) :
    Lawful response initial es e ∧ Tracks response initial (es ++ [e]) e.after := by
  have hopens := opensSet_of_fetch hcall
  have hfetches : e.call.isFetch = true := by rw [hcall]; rfl
  have hexhausts : e.exhausts = false := by simp [CursorEvent.exhausts, hrow]
  have hpositions : e.positions = true := by simp [CursorEvent.positions, hfetches, hrow]
  have hbounds := rowLimit_le hcounted stmt.maxRows
  -- the limit is not reached, so the set is not at its end
  rcases h.position set hset with ⟨-, hend⟩ | ⟨hnone, hcur, hle, hon⟩
  · omega
  have hnext : e.after.currentRow = rowsFetched es := by
    rw [hafter]
    show stmt.currentRow + 1 = _
    omega
  have hrows : rowsFetched (es ++ [e]) = rowsFetched es + 1 := by
    rw [rowsFetched_append hopens, if_pos hpositions]
  constructor
  · refine Lawful.of_fetch hcall (fun set' hset' _ => ⟨hnext, ?_, fun hne => ?_⟩)
      fun ⟨f, hf, hexhausts⟩ => ?_
    · rw [hset] at hset'
      cases hset'
      omega
    · rw [← h.maxRows] at hne ⊢
      have := hbounds.2 hne
      omega
    · rw [hnone f hf] at hexhausts
      cases hexhausts
  · refine h.fetched hcall hafter (fun set' hset' => ?_) fun _ => hexhausts
    rw [hset] at hset'
    cases hset'
    refine Or.inr ⟨?_, ?_, ?_, fun _ => ⟨e, [], LastFetch.self hopens hfetches, hpositions, rfl, ?_⟩⟩
    · intro f hf
      rcases (mem_onCurrentSet_append hopens).1 hf with hf | rfl
      · exact hnone f hf
      · exact hexhausts
    · rw [hnext, hrows]
      push_cast
      omega
    · rw [hrows]
      push_cast
      omega
    · intro _
      rw [hafter]

theorem step_fetch (h : Tracks response initial es stmt)
    (hcounted : ∀ set ∈ response.sets, set.Counted) :
    Lawful response initial es (perform beyond stmt .fetch) ∧
    Tracks response initial (es ++ [perform beyond stmt .fetch])
      (perform beyond stmt .fetch).after := by
  have hcall : (perform beyond stmt .fetch).call = .fetch := rfl
  have hret : (perform beyond stmt .fetch).ret = (sqlFetch beyond stmt).1.ret := rfl
  have hafter : (perform beyond stmt .fetch).after = (sqlFetch beyond stmt).2 := rfl
  have hcases := sqlFetch_cases beyond stmt
  rw [← hret, ← hafter, h.flStmtCurrentSet_eq] at hcases
  rcases hcases with ⟨hset, ⟨diag, herror⟩, hsame⟩ |
    ⟨set, hset, ⟨-, hnoData, hsame⟩ | ⟨hlimit, hrow, hsame⟩⟩
  · exact fetch_noSet h hcall hset herror hsame
  · exact fetch_end h hcall hset hnoData hsame
  · exact fetch_row h hcall hset (hcounted set (List.mem_of_getElem? hset)) hlimit hrow hsame

/-- One call keeps the invariant, and is lawful. -/
theorem Tracks.perform (h : Tracks response initial es stmt)
    (hcounted : ∀ set ∈ response.sets, set.Counted) (call : CursorCall) :
    Lawful response initial es (perform beyond stmt call) ∧
    Tracks response initial (es ++ [perform beyond stmt call]) (perform beyond stmt call).after := by
  cases call with
  | fetch => exact step_fetch beyond h hcounted
  | getData number target => exact step_getData beyond h number target
  | bindCol number target => exact step_bindCol beyond h number target
  | moreResults => exact step_moreResults beyond h hcounted
  | setMaxRows value => exact step_setMaxRows beyond h value

theorem Tracks.performAll (h : Tracks response initial es stmt)
    (hcounted : ∀ set ∈ response.sets, set.Counted) (calls : List CursorCall) :
    ∀ early e late, performAll beyond stmt calls = early ++ e :: late →
      Lawful response initial (es ++ early) e := by
  induction calls generalizing es stmt with
  | nil =>
    intro early e late hsplit
    simp [performAll] at hsplit
  | cons call calls ih =>
    intro early e late hsplit
    obtain ⟨hlawful, htracks⟩ := h.perform beyond hcounted call
    unfold performAll at hsplit
    cases early with
    | nil =>
      obtain ⟨rfl, -⟩ := List.cons.inj hsplit
      rw [List.append_nil]
      exact hlawful
    | cons first early =>
      obtain ⟨rfl, hrest⟩ := List.cons.inj hsplit
      have hlate := ih htracks early e late hrest
      rw [List.append_assoc] at hlate
      exact hlate

/-- The cursor of a statement obeys its law, whatever is called on it. -/
theorem cursorLaw_performAll (hopened : JustExecuted response stmt)
    (hcounted : ∀ set ∈ response.sets, set.Counted) (calls : List CursorCall) :
    CursorLaw response stmt.maxRows (performAll beyond stmt calls) := by
  intro early e late hsplit
  exact (hopened.tracks hcounted).performAll beyond hcounted calls early e late hsplit

/-- The answer to two queries: one of two rows, and one without rows. -/
def twoSets : Response :=
  { sets :=
      [{ columns := [⟨lit "V", none, .varchar, 16, 0, 16⟩]
         columnCount := 1
         cells := [⟨some (lit "a"), 's', false⟩, ⟨some (lit "b"), 's', false⟩]
         rowCount := 2 },
       { columns := [], columnCount := 0, cells := [], rowCount := 0 }]
    sessionId := none
    errorMessage := none }

theorem cursorLaw_performAll_two :
    CursorLaw twoSets 1 (performAll (fun _ _ => [])
      { snowStmt with response := some twoSets, synth := none, currentRow := -1, maxRows := 1 }
      [.fetch, .fetch, .setMaxRows 0, .getData 1 ⟨.char, true, 9, true⟩, .fetch, .moreResults,
        .fetch]) := by
  refine cursorLaw_performAll _ ⟨rfl, rfl, rfl, rfl⟩ ?_ _
  intro set hset
  simp only [twoSets, List.mem_cons, List.not_mem_nil, or_false] at hset
  rcases hset with rfl | rfl
  · exact ⟨by decide, by decide⟩
  · exact ⟨by decide, by decide⟩

end FrostlakeOdbc
