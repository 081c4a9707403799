import FrostlakeOdbc.FetchProof
import FrostlakeOdbc.ResponseProof
import Mathlib.Algebra.Order.BigOperators.Group.List
import Mathlib.Algebra.Order.Ring.Nat

/-!
# From the wire to the application

An application that executes a statement and then goes through all result sets, rows and columns of it,
reading every value as text through buffers of any sizes (`readSets`), reads what the engine sent
(`readSets_of_sent`).
-/

namespace FrostlakeOdbc

open CString JsonText Exchange Client

/-! ## The application -/

/-- The sizes of the buffers a column is read through; each may depend on what came before. -/
abbrev Buffers := ℕ → Bytes → ℤ

/-- Reads a value with `SQLGetData` as text, piece by piece to its end, behind what was read of it. A
`NULL` is `none`. -/
def readText (beyond : Behind) (size : Bytes → ℤ) (number : UInt16) :
    ℕ → Bytes → Stmt → Option (Option Bytes × Stmt)
  | 0, _, _ => none
  | fuel + 1, read, stmt =>
      let (got, stmt) := sqlGetData beyond stmt number ⟨.char, true, size read, true⟩
      match got.ret with
      | .success =>
          if got.indicator = some sqlNullData then some (none, stmt)
          else some (some (read ++ got.piece .char), stmt)
      | .successWithInfo _ => readText beyond size number fuel (read ++ got.piece .char) stmt
      | _ => none

/-- Reads the columns of a row from the index `i` on. -/
def readRow (beyond : Behind) (sizes : Buffers) (fuel : ℕ) :
    ℕ → ℕ → Stmt → Option (List (Option Bytes) × Stmt)
  | 0, _, stmt => some ([], stmt)
  | left + 1, i, stmt => do
      let (value, stmt) ← readText beyond (sizes i) (UInt16.ofNat (i + 1)) fuel [] stmt
      let (values, stmt) ← readRow beyond sizes fuel left (i + 1) stmt
      return (value :: values, stmt)

/-- Fetches the rows of a result set to its end; `inner` is enough for every value. -/
def readRows (beyond : Behind) (sizes : Buffers) (inner : ℕ) :
    ℕ → Stmt → Option (List (List (Option Bytes)) × Stmt)
  | 0, _ => none
  | fuel + 1, stmt =>
      let (fetched, stmt) := sqlFetch beyond stmt
      match fetched.ret with
      | .success => do
          let (row, stmt) ← readRow beyond sizes inner (sqlNumResultCols stmt).toNat 0 stmt
          let (rows, stmt) ← readRows beyond sizes inner fuel stmt
          return (row :: rows, stmt)
      | .noData => some ([], stmt)
      | _ => none

/-- Goes through the result sets; `inner` is enough for the rows of one, too. -/
def readSets (beyond : Behind) (sizes : Buffers) (inner : ℕ) :
    ℕ → Stmt → Option (List (List (List (Option Bytes))) × Stmt)
  | 0, _ => none
  | fuel + 1, stmt => do
      let (rows, stmt) ← readRows beyond sizes inner inner stmt
      match sqlMoreResults stmt with
      | (.success, stmt) =>
          let (sets, stmt) ← readSets beyond sizes inner fuel stmt
          return (rows :: sets, stmt)
      | (.noData, stmt) => return ([rows], stmt)
      | _ => none

/-- What an application has of a cell. -/
def Cell.readBack (cell : Cell) : Option Bytes := if cell.isNull then none else some (cell.text.getD [])

/-! ## One value -/

section

variable (beyond : Behind) {size : Bytes → ℤ} {number : UInt16} {stmt : Stmt} {column : Column}
  {cell : Cell}

theorem readText_null (hcell : OnCell stmt number column cell) (hnull : cell.isNull = true) (n : ℕ)
    (read : Bytes) : readText beyond size number (n + 1) read stmt =
      some (none, afterRead stmt number (readOffset stmt number)) := by
  have hone : ∀ behind target, target.strLenOrInd = true →
      convertCell behind column cell target (some (readOffset stmt number)) =
        { ret := .success, indicator := some sqlNullData, offset := some (readOffset stmt number) } := by
    intro behind target hind
    unfold convertCell
    rw [if_pos hnull, if_pos hind]
  unfold readText
  rw [sqlGetData_onCell beyond hcell, hone _ _ rfl]
  rfl

/-- One read of what is left of a value: a piece of it, or all of it. -/
theorem exists_piece (hcell : OnCell stmt number column cell) (hnull : cell.isNull = false) {rest : Bytes}
    (hrest : (cell.text.getD []).drop (readOffset stmt number) = rest)
    (hstart : readOffset stmt number ≤ (cell.text.getD []).length) {length : ℤ} (hroom : 2 ≤ length) :
    ∃ copy got offset, (rest ≠ [] → 0 < copy) ∧ copy ≤ rest.length ∧
      sqlGetData beyond stmt number ⟨.char, true, length, true⟩ = (got, afterRead stmt number offset) ∧
      got.piece .char = rest.take copy ∧ got.indicator = some (rest.length : ℤ) ∧
      if copy < rest.length then
        got.ret = .successWithInfo truncated ∧ offset = readOffset stmt number + copy
      else got.ret = .success := by
  let target : Target := ⟨.char, true, length, true⟩
  have hprobe : target.probes = false := by
    unfold Target.probes
    rw [Bool.not_true, Bool.false_or, decide_eq_false_iff_not]
    exact fun h => absurd (hroom.trans h) (by decide)
  obtain ⟨copy, hfits, hone⟩ := exists_deliver (beyond stmt.currentRow (number.toNat - 1)) (.inl rfl)
    (show HoldsValue column .char _ _ from rfl) hstart hprobe fun _ => hroom
  have hgot := sqlGetData_onCell beyond hcell target
  rw [convertCell_eq _ hnull (.inl rfl) rfl, hone] at hgot
  rw [hrest] at hfits hgot
  have hlength : (cell.text.getD []).length - readOffset stmt number = rest.length := by
    rw [← hrest, List.length_drop]
  have htakes : ((rest.take copy ++ terminator .char).length : ℤ) ≤ target.bufferLength := by
    rw [List.length_append, List.length_take, Nat.min_eq_left hfits.le]
    exact hfits.room
  refine ⟨copy, _, _, hfits.pos, hfits.le, hgot, ?_, ?_, ?_⟩
  · exact Delivers.piece_eq (show Delivers .char target _ _ from ⟨rfl, htakes⟩)
  · show some _ = some _
    rw [hlength]
  · unfold deliver
    dsimp only
    rw [hlength]
    by_cases hmore : copy < rest.length
    · rw [if_pos hmore, if_pos hmore]
      exact ⟨rfl, if_pos hmore⟩
    · rw [if_neg hmore, if_neg hmore]

/-- The pieces that were read are a start of the value, and the rest of it comes. -/
theorem readText_value (hsize : ∀ read, 2 ≤ size read) (hnull : cell.isNull = false) {text : Bytes}
    (htext : cell.text.getD [] = text) {n : ℕ} (hcell : OnCell stmt number column cell)
    (hstart : readOffset stmt number ≤ text.length)
    (hfuel : text.length - readOffset stmt number < n) :
    ∃ offset, readText beyond size number n (text.take (readOffset stmt number)) stmt =
      some (some text, afterRead stmt number offset) := by
  induction n generalizing stmt with
  | zero => exact absurd hfuel (Nat.not_lt_zero _)
  | succ n ih =>
    obtain ⟨copy, got, offset, hpos, hle, hgot, hpiece, hind, hret⟩ := exists_piece beyond
      hcell hnull rfl (htext ▸ hstart) (hsize (text.take (readOffset stmt number)))
    rw [htext] at hpos hle hpiece hind hret
    unfold readText
    rw [hgot]
    by_cases hmore : copy < (text.drop (readOffset stmt number)).length
    · rw [if_pos hmore] at hret
      obtain ⟨hret, rfl⟩ := hret
      have hread : text.take (readOffset stmt number) ++ got.piece .char =
          text.take (readOffset stmt number + copy) := by
        rw [hpiece, List.take_add]
      have hcopy := hpos (List.ne_nil_of_length_pos (by omega))
      rw [List.length_drop] at hmore
      have hnext := ih (hcell.afterRead (readOffset stmt number + copy))
        (by rw [readOffset_afterRead]; omega) (by rw [readOffset_afterRead]; omega)
      rw [readOffset_afterRead] at hnext
      obtain ⟨offset, hnext⟩ := hnext
      simp only [hret, hread, hnext]
      exact ⟨offset, rfl⟩
    · rw [if_neg hmore] at hret
      have hread : text.take (readOffset stmt number) ++ got.piece .char = text := by
        rw [hpiece, List.take_of_length_le (not_lt.1 hmore), List.take_append_drop]
      have hnotnull : ¬got.indicator = some sqlNullData := by
        rw [hind, Option.some_inj]
        unfold sqlNullData
        omega
      simp only [hret, if_neg hnotnull, hread]
      exact ⟨offset, rfl⟩

/-- A value that no read has started on is read as the cell shows it. -/
theorem readText_shown (hsize : ∀ read, 2 ≤ size read) (hcell : OnCell stmt number column cell)
    (hfresh : readOffset stmt number = 0) {n : ℕ} (hfuel : (cell.text.getD []).length < n) :
    ∃ offset, readText beyond size number n [] stmt =
      some (cell.readBack, afterRead stmt number offset) := by
  unfold Cell.readBack
  cases hnull : cell.isNull with
  | true =>
    obtain ⟨m, rfl⟩ := Nat.exists_eq_add_one_of_ne_zero (Nat.ne_of_gt (Nat.zero_lt_of_lt hfuel))
    exact ⟨_, readText_null beyond hcell hnull m []⟩
  | false =>
    have hread := readText_value beyond hsize hnull rfl hcell
      (by rw [hfresh]; exact Nat.zero_le _) (by rw [hfresh]; exact hfuel)
    rw [hfresh, List.take_zero] at hread
    exact hread

end

/-! ## What was sent -/

/-- What an application reads of a cell in a column of the given type. -/
def SentCell.shown (dataType : Bytes) : SentCell → Option Bytes
  | .null => none
  | .number lexeme => some lexeme
  | .bool b =>
      some (if flSqlTypeFor (some dataType) 0 = .bit then (if b then lit "1" else lit "0")
        else (if b then lit "true" else lit "false"))
  | .string cs _ => some (utf8 cs)

/-- The texts of the rows. -/
def SentSet.texts (set : SentSet) : List (List (Option Bytes)) :=
  set.rows.map fun row => List.zipWith SentCell.shown set.dataTypes row

/-- A decoded result set, its columns typed by their names. -/
structure Mirrors (set : SentSet) (d : ResultSet) : Prop extends Decodes set d where
  types : ∀ column ∈ d.columns, column.sqlType = flSqlTypeFor column.typeName column.scale

theorem isBit_flSqlTypeFor (typeName : Option Bytes) (scale : ℤ) :
    flSqlTypeFor typeName scale = .bit ↔ flSqlTypeFor typeName 0 = .bit := by
  unfold flSqlTypeFor
  cases typeName with
  | none => rfl
  | some name =>
    dsimp only
    by_cases hscale : scale = 0
    · rw [hscale]
    · simp only [if_neg hscale]
      split_ifs <;> simp

theorem shown_cell {sqlType : SqlType} {dataType : Bytes} {scale : ℤ}
    (h : sqlType = flSqlTypeFor (some dataType) scale) (cell : SentCell) :
    (cell.cell sqlType).readBack = cell.shown dataType ∧
      (cell.cell sqlType).text.getD [] = (cell.shown dataType).getD [] := by
  cases cell with
  | bool b =>
    have hbit : sqlType = .bit ↔ flSqlTypeFor (some dataType) 0 = .bit := h ▸ isBit_flSqlTypeFor _ _
    unfold Cell.readBack
    simp only [SentCell.cell, SentCell.shown, hbit]
    simp
  | _ => exact ⟨rfl, rfl⟩

theorem mirrors_decodeSet {set : SentSet} {v : Value} (h : IsSet set v) :
    Mirrors set (decodeSet (some v)) where
  toDecodes := decodes_decodeSet h
  types column hcolumn := by
    obtain ⟨i, -, rfl⟩ := List.mem_map.1 hcolumn
    rfl

theorem Mirrors.exists_cell {set : SentSet} {d : ResultSet} (h : Mirrors set d) {r c : ℕ}
    {row : List (Option Bytes)} {value : Option Bytes} (hr : set.texts[r]? = some row)
    (hc : row[c]? = some value) :
    ∃ column cell, d.columns[c]? = some column ∧ d.cellAt r c = some cell ∧ cell.readBack = value ∧
      cell.text.getD [] = value.getD [] := by
  unfold SentSet.texts at hr
  rw [List.getElem?_map] at hr
  obtain ⟨cells, hcells, rfl⟩ := Option.map_eq_some_iff.1 hr
  obtain ⟨dataType, sent, htype, hsent, rfl⟩ := List.getElem?_zipWith_eq_some.1 hc
  obtain ⟨column, hcolumn, htypeName, hcell⟩ := h.cell r cells c sent hcells hsent
  rw [htype] at htypeName
  have hsqlType := h.types column (List.mem_of_getElem? hcolumn)
  rw [htypeName] at hsqlType
  refine ⟨column, _, hcolumn, ?_, shown_cell hsqlType sent⟩
  unfold ResultSet.cellAt
  rw [h.columnCount]
  exact hcell

/-! ## One row -/

/-- Only the position of the statement in its result set is another one. -/
def Stmt.moved (stmt : Stmt) (row col : ℤ) (offset : ℕ) : Stmt :=
  { stmt with currentRow := row, getdataCol := col, getdataOffset := offset }

variable (beyond : Behind) {sizes : Buffers} {n : ℕ}

theorem readRow_eq (hsizes : ∀ i read, 2 ≤ sizes i read) {values : List (Option Bytes)}
    (hfuel : ∀ v ∈ values, (v.getD []).length < n) {i : ℕ} {stmt : Stmt}
    (hwide : i + values.length < 2 ^ 16)
    (hcells : ∀ j v, values[j]? = some v → ∃ column cell,
      OnCell stmt (UInt16.ofNat (i + j + 1)) column cell ∧ cell.readBack = v ∧
        cell.text.getD [] = v.getD [])
    (hfresh : ∀ j < values.length, readOffset stmt (UInt16.ofNat (i + j + 1)) = 0) :
    ∃ col offset, readRow beyond sizes n values.length i stmt =
      some (values, stmt.moved stmt.currentRow col offset) := by
  induction values generalizing i stmt with
  | nil => exact ⟨_, _, rfl⟩
  | cons v values ih =>
    rw [List.length_cons] at hwide
    obtain ⟨column, cell, hcell, hshown, htext⟩ := hcells 0 v rfl
    have hread := readText_shown beyond (hsizes i) hcell (hfresh 0 (Nat.succ_pos _))
      (htext ▸ hfuel v (by simp))
    obtain ⟨offset, hread⟩ := hread
    have hnext : ∀ j < values.length, (UInt16.ofNat (i + 1)).toNat ≠
        (UInt16.ofNat (i + 1 + j + 1)).toNat := by
      intro j hj
      rw [UInt16.toNat_ofNat', UInt16.toNat_ofNat']
      omega
    have hcells' : ∀ j v, values[j]? = some v → ∃ column cell,
        OnCell (afterRead stmt (UInt16.ofNat (i + 1)) offset) (UInt16.ofNat (i + 1 + j + 1)) column cell ∧
          cell.readBack = v ∧ cell.text.getD [] = v.getD [] := by
      intro j v hv
      obtain ⟨column, cell, hcell, hshown⟩ := hcells (j + 1) v hv
      rw [show i + (j + 1) + 1 = i + 1 + j + 1 by omega] at hcell
      exact ⟨column, cell, ⟨hcell.exists_set⟩, hshown⟩
    have hfresh' : ∀ j < values.length, readOffset (afterRead stmt (UInt16.ofNat (i + 1)) offset)
        (UInt16.ofNat (i + 1 + j + 1)) = 0 := by
      intro j hj
      unfold readOffset
      exact if_pos (Nat.cast_injective.ne (hnext j hj))
    have hrest := ih (fun v hv => hfuel v (by simp [hv])) (by omega) hcells' hfresh'
    obtain ⟨col, offset', hrest⟩ := hrest
    refine ⟨col, offset', ?_⟩
    rw [List.length_cons]
    unfold readRow
    rw [Nat.add_zero] at hread
    rw [hread, Option.bind_eq_bind, Option.bind_some]
    dsimp only
    rw [hrest, hshown]
    rfl

/-! ## The rows of a set -/

theorem deliverColumns_none {beyond : Behind} {set : ResultSet} {row : ℤ} {i : ℕ}
    {columns : List (BoundCol × Column)} {ret : SqlReturn}
    (h : ∀ bound ∈ columns, bound.1.bound = false) :
    deliverColumns beyond set row i columns ret = (ret, []) := by
  induction columns generalizing i with
  | nil => rfl
  | cons head rest ih =>
    obtain ⟨bound, column⟩ := head
    rw [deliverColumns_unbound (h _ List.mem_cons_self)]
    exact ih fun bound hbound => h bound (List.mem_cons_of_mem _ hbound)

/-- The rows `SQL_ATTR_MAX_ROWS` leaves. -/
def limited {α : Type} (maxRows : ℕ) (rows : List α) : List α :=
  if maxRows = 0 then rows else rows.take maxRows

theorem rowLimit_eq {set : SentSet} {d : ResultSet} (h : Mirrors set d) (maxRows : ℕ) :
    rowLimit d maxRows = (limited maxRows set.texts).length := by
  have hrows := set.rows_lt
  have hlength : set.texts.length = set.rows.length := List.length_map _
  unfold rowLimit limited
  rw [h.rowCount, Int.emod_eq_of_lt (Int.natCast_nonneg _) (by omega)]
  by_cases hlimit : 0 < maxRows ∧ (maxRows : ℤ) < set.rows.length
  · rw [if_pos hlimit, if_neg (Nat.ne_of_gt hlimit.1), List.length_take, hlength,
      toInt_of_lt (by omega)]
    omega
  · rw [if_neg hlimit]
    split
    · rw [hlength]
    · rw [List.length_take, hlength]
      omega

theorem getElem?_limited {α : Type} {maxRows r : ℕ} {rows : List α}
    (hr : r < (limited maxRows rows).length) : (limited maxRows rows)[r]? = rows[r]? := by
  unfold limited at hr ⊢
  split
  · rfl
  · rename_i hmax
    rw [if_neg hmax, List.length_take] at hr
    exact List.getElem?_take_of_lt (by omega)

section

variable {stmt : Stmt} {d : ResultSet} (hset : flStmtCurrentSet stmt = some d)

include hset

theorem sqlFetch_row (hrow : stmt.currentRow + 1 < rowLimit d stmt.maxRows)
    (hunbound : ∀ bound ∈ stmt.boundCols, bound.bound = false) :
    ∃ fetched, sqlFetch beyond stmt = (fetched, stmt.moved (stmt.currentRow + 1) (-1) 0) ∧
      fetched.ret = .success := by
  refine ⟨(sqlFetch beyond stmt).1, Prod.ext rfl (stmt_sqlFetch hset hrow beyond), ?_⟩
  rw [ret_sqlFetch hset hrow beyond, deliverColumns_none]
  intro bound hbound
  exact hunbound _ (List.of_mem_zip hbound).1

theorem sqlFetch_end (hrow : rowLimit d stmt.maxRows ≤ stmt.currentRow + 1) :
    ∃ fetched, sqlFetch beyond stmt =
        (fetched, stmt.moved d.rowCount stmt.getdataCol stmt.getdataOffset) ∧
      fetched.ret = .noData := by
  unfold sqlFetch
  simp only [hset, if_pos hrow]
  exact ⟨_, rfl, rfl⟩

end

theorem length_of_mem_texts {set : SentSet} {row : List (Option Bytes)} (h : row ∈ set.texts) :
    row.length = set.dataTypes.length := by
  obtain ⟨cells, hcells, rfl⟩ := List.mem_map.1 h
  rw [List.length_zipWith, set.rectangular cells hcells, Nat.min_self]

/-- The columns of the row a fetch has come to. -/
theorem readRow_fetched (hsizes : ∀ i read, 2 ≤ sizes i read) {set : SentSet} {d : ResultSet}
    (h : Mirrors set d) (hwide : set.dataTypes.length < 2 ^ 15) {stmt : Stmt}
    (hset : flStmtCurrentSet stmt = some d) {r : ℕ} {values : List (Option Bytes)}
    (hvalues : set.texts[r]? = some values) (hfuel : ∀ v ∈ values, (v.getD []).length < n) :
    ∃ col offset, readRow beyond sizes n (sqlNumResultCols (stmt.moved r (-1) 0)).toNat 0
      (stmt.moved r (-1) 0) = some (values, stmt.moved r col offset) := by
  have hset' : flStmtCurrentSet (stmt.moved r (-1) 0) = some d := hset
  have hlength := length_of_mem_texts (List.mem_of_getElem? hvalues)
  have hcount : (sqlNumResultCols (stmt.moved r (-1) 0)).toNat = values.length := by
    unfold sqlNumResultCols
    rw [hset', Option.map_some, Option.getD_some, h.columnCount, hlength,
      Int.bmod_eq_of_le (by omega) (by omega), Int.toNat_natCast]
  have hrows : r < set.rows.length := by
    have hlt := (List.getElem?_eq_some_iff.1 hvalues).1
    unfold SentSet.texts at hlt
    rwa [List.length_map] at hlt
  rw [hcount]
  apply readRow_eq beyond hsizes hfuel (by omega)
  · intro j v hv
    obtain ⟨column, cell, hcolumn, hcell, hshown⟩ := h.exists_cell hvalues hv
    have hj : j < values.length := (List.getElem?_eq_some_iff.1 hv).1
    have hnumber : (UInt16.ofNat (0 + j + 1)).toNat = j + 1 := by
      rw [UInt16.toNat_ofNat']
      omega
    refine ⟨column, cell, ⟨d, hset', Int.natCast_nonneg r, ?_, ?_, ?_⟩, hshown⟩
    · rw [h.rowCount]
      show (r : ℤ) < set.rows.length
      exact_mod_cast hrows
    · unfold columnAt
      rw [hnumber, h.columnCount, if_neg (by omega)]
      exact hcolumn
    · rw [hnumber]
      exact hcell
  · intro j hj
    unfold readOffset
    split <;> rfl

theorem readRows_eq (hsizes : ∀ i read, 2 ≤ sizes i read) {set : SentSet} {d : ResultSet}
    (h : Mirrors set d) (hwide : set.dataTypes.length < 2 ^ 15)
    (hinner : ∀ row ∈ set.texts, ∀ v ∈ row, (v.getD []).length < n) {fuel r : ℕ} {stmt : Stmt}
    (hset : flStmtCurrentSet stmt = some d) (hunbound : ∀ bound ∈ stmt.boundCols, bound.bound = false)
    (hrow : stmt.currentRow + 1 = r)
    (hfuel : (limited stmt.maxRows set.texts).length - r < fuel) :
    ∃ row col offset, readRows beyond sizes n fuel stmt =
      some ((limited stmt.maxRows set.texts).drop r, stmt.moved row col offset) := by
  induction fuel generalizing r stmt with
  | zero => exact absurd hfuel (Nat.not_lt_zero _)
  | succ fuel ih =>
    have hlimit := rowLimit_eq h stmt.maxRows
    unfold readRows
    by_cases hmore : r < (limited stmt.maxRows set.texts).length
    · obtain ⟨fetched, hfetch, hret⟩ := sqlFetch_row beyond hset
        (by rw [hlimit, hrow]; exact_mod_cast hmore) hunbound
      have hat := getElem?_limited hmore
      rw [List.getElem?_eq_getElem hmore] at hat
      obtain ⟨col, offset, hread⟩ := readRow_fetched beyond hsizes h hwide hset hat.symm
        (hinner _ (List.mem_of_getElem? hat.symm))
      have hset' : flStmtCurrentSet (stmt.moved r col offset) = some d := hset
      have hleft : (limited (stmt.moved r col offset).maxRows set.texts).length - (r + 1) < fuel := by
        show (limited stmt.maxRows set.texts).length - (r + 1) < fuel
        omega
      obtain ⟨row, col', offset', hrest⟩ := ih hset' hunbound (by rfl) hleft
      refine ⟨row, col', offset', ?_⟩
      rw [hfetch, hrow, List.drop_eq_getElem_cons hmore]
      simp only [hret]
      rw [hread, Option.bind_eq_bind, Option.bind_some]
      dsimp only
      rw [hrest]
      rfl
    · obtain ⟨fetched, hfetch, hret⟩ := sqlFetch_end beyond hset
        (by rw [hlimit, hrow]; exact_mod_cast not_lt.1 hmore)
      rw [hfetch, List.drop_of_length_le (not_lt.1 hmore)]
      simp only [hret]
      exact ⟨_, _, _, rfl⟩

/-! ## The result sets -/

/-- Nothing an application would read takes more than `n` steps. -/
structure ReadWithin (n : ℕ) (sets : List SentSet) : Prop where
  rows : ∀ set ∈ sets, set.texts.length < n
  values : ∀ set ∈ sets, ∀ row ∈ set.texts, ∀ v ∈ row, (v.getD []).length < n

theorem length_limited_le {α : Type} (maxRows : ℕ) (rows : List α) :
    (limited maxRows rows).length ≤ rows.length := by
  unfold limited
  split
  · exact le_rfl
  · exact List.length_take_le' _ _

theorem readSets_eq (hsizes : ∀ i read, 2 ≤ sizes i read) {sets : List SentSet} {response : Response}
    (hsets : List.Forall₂ Mirrors sets response.sets)
    (hwide : ∀ set ∈ sets, set.dataTypes.length < 2 ^ 15) (hwithin : ReadWithin n sets) {fuel : ℕ}
    {stmt : Stmt} (hsynth : stmt.synth = none) (hresponse : stmt.response = some response)
    (hunbound : ∀ bound ∈ stmt.boundCols, bound.bound = false) (hrow : stmt.currentRow = -1)
    (hcurrent : stmt.currentSet < sets.length) (hfuel : sets.length - stmt.currentSet ≤ fuel) :
    (readSets beyond sizes n fuel stmt).map Prod.fst =
      some ((sets.drop stmt.currentSet).map fun set => limited stmt.maxRows set.texts) := by
  induction fuel generalizing stmt with
  | zero => omega
  | succ fuel ih =>
    have hlength := hsets.length_eq
    have hmem : sets[stmt.currentSet] ∈ sets := List.getElem_mem hcurrent
    have hmirrors : Mirrors sets[stmt.currentSet] response.sets[stmt.currentSet] :=
      hsets.get hcurrent (hlength ▸ hcurrent)
    have hset : flStmtCurrentSet stmt = some response.sets[stmt.currentSet] := by
      unfold flStmtCurrentSet
      rw [hsynth, hresponse]
      exact List.getElem?_eq_getElem _
    obtain ⟨row, col, offset, hread⟩ := readRows_eq beyond hsizes hmirrors (hwide _ hmem)
      (hwithin.values _ hmem) hset hunbound (show stmt.currentRow + 1 = (0 : ℕ) by rw [hrow]; rfl)
      (lt_of_le_of_lt (length_limited_le _ _) (hwithin.rows _ hmem))
    rw [List.drop_zero] at hread
    unfold readSets
    rw [hread, Option.bind_eq_bind, Option.bind_some, List.drop_eq_getElem_cons hcurrent]
    dsimp only
    have hsynth' : (stmt.moved row col offset).synth = none := hsynth
    have hresponse' : (stmt.moved row col offset).response = some response := hresponse
    by_cases hmore : stmt.currentSet + 1 < sets.length
    · have hnext : response.sets[(stmt.moved row col offset).currentSet + 1]? =
          some response.sets[stmt.currentSet + 1] := List.getElem?_eq_getElem (hlength ▸ hmore)
      have hnow := sqlMoreResults_next hsynth' hresponse' hnext
      generalize hopened : ({ (stmt.moved row col offset) with
        currentSet := (stmt.moved row col offset).currentSet + 1
        currentRow := -1
        rowCount := countedRows response.sets[stmt.currentSet + 1]
        getdataCol := -1
        getdataOffset := 0 } : Stmt) = opened at hnow
      rw [hnow]
      dsimp only
      have hfields : opened.synth = none ∧ opened.response = some response ∧
          opened.boundCols = stmt.boundCols ∧ opened.currentRow = -1 ∧
          opened.currentSet = stmt.currentSet + 1 ∧ opened.maxRows = stmt.maxRows := by
        subst hopened
        exact ⟨hsynth, hresponse, rfl, rfl, rfl, rfl⟩
      obtain ⟨hsynth', hresponse', hcols, hrow', hcurrent', hmax⟩ := hfields
      have hrest := ih hsynth' hresponse' (hcols ▸ hunbound) hrow' (hcurrent' ▸ hmore) (by omega)
      rw [hcurrent', hmax] at hrest
      obtain ⟨⟨more, last⟩, hmoreSets, hmore'⟩ := Option.map_eq_some_iff.1 hrest
      rw [hmoreSets, Option.bind_eq_bind, Option.bind_some, List.map_cons, ← hmore']
      rfl
    · have hlast : response.sets[(stmt.moved row col offset).currentSet + 1]? = none :=
        List.getElem?_eq_none_iff.2 (hlength ▸ not_lt.1 hmore)
      rw [sqlMoreResults_last hsynth' hresponse' hlast, List.drop_of_length_le (not_lt.1 hmore)]
      rfl

/-! ## The answer an execution hands back -/

/-- A request of an execution: a statement of the connection's scope or the statement itself. -/
def Executing (dbc : Dbc) (sql : Bytes) (q : Request) : Prop :=
  ∃ p, q = .post p ∧ p.dbc.settings = dbc.settings ∧ (p.sql = sql ∨ p.sql ∈ scopeStatements dbc)

/-- The monitor of an execution. It keeps the last request with its answer. -/
def executionMonitor (dbc : Dbc) (sql : Bytes) :
    Monitor Request HttpReply (Option (Request × HttpReply)) where
  next _ q reply := some (q, reply)
  allows _ := Executing dbc sql
  admits _ _ _ := True

theorem after_executionMonitor (dbc : Dbc) (sql : Bytes) (g : Option (Request × HttpReply)) (t : Trace) :
    (executionMonitor dbc sql).after g t = t.getLast?.or g := by
  induction t generalizing g with
  | nil => rfl
  | cons e t ih =>
    show (executionMonitor dbc sql).after (some e) t = _
    rw [ih, List.getLast?_cons]
    cases t.getLast? <;> rfl

/-- A response that is handed back as a success is the last answer, to the statement. -/
def FromLast (sql : Bytes) (a : Result × Dbc) (g : Option (Request × HttpReply)) : Prop :=
  ∀ response, a.1 = .ok response → response.errorMessage = none →
    ∃ p status body root, g = some (.post p, .answered status body) ∧ p.sql = sql ∧
      flJsonParse (cstr body) = some root ∧ response = decodeResponse root

variable {sql : Bytes} in
theorem fromLast_error (e : TransportError) (d : Dbc) (g : Option (Request × HttpReply)) :
    FromLast sql (.error e, d) g := by
  intro response h
  cases h

variable {sql : Bytes} in
theorem fromLast_refused (message : Bytes) (d : Dbc) (g : Option (Request × HttpReply)) :
    FromLast sql (scopeFailed (.refused message), d) g := by
  intro response h hok
  cases h
  cases hok

theorem holds_fromLast (dbc : Dbc) (sql : Bytes) (count : ℤ) :
    (executionMonitor dbc sql).Holds (flProtoExecuteCounted dbc sql count) (FromLast sql) none := by
  have hloss : ∀ (p : Post) g, p.dbc.settings = dbc.settings →
      AfterLoss (fun _ d _ => d.settings = dbc.settings) (FromLast sql) p.dbc g :=
    fun p g hp => ⟨fun e _ => fromLast_error e _ g, fun _ _ => (settings_forgetSession p.dbc).trans hp⟩
  have hscope : ScopeKeeps (executionMonitor dbc sql) (fun _ d _ => d.settings = dbc.settings)
      (FromLast sql) (scopeStatements dbc) := by
    intro i scopeSql d g hat hd
    refine ⟨⟨_, rfl, hd, .inr (List.mem_of_getElem? hat)⟩, fun reply _ => ?_⟩
    refine afterScope_readReply (p := ⟨.scope i, d, scopeSql, -1⟩) ?_ ?_ ?_
    · exact fun _ => ⟨hloss _ _ hd, fun e _ => fromLast_error e _ _⟩
    · exact fun root _ _ => (settings_absorbed _ root).trans hd
    · exact fun root _ _ message => fromLast_refused message _ _
  have hstmt : ∀ flags, StatementKeeps (executionMonitor dbc sql)
      (fun _ d _ => d.settings = dbc.settings) (fun d _ => d.settings = dbc.settings) (FromLast sql) sql
      count flags := by
    intro flags d g hd
    refine ⟨⟨_, rfl, hd, .inl rfl⟩, fun reply _ => ?_⟩
    refine afterStatement_readReply (p := ⟨.statement flags, d, sql, count⟩) ?_ ?_
    · exact fun _ => ⟨hloss _ _ hd, fun e _ => fromLast_error e _ _⟩
    · intro root hans response h _
      cases h
      cases reply with
      | failed message => cases hans
      | answered status body =>
        exact ⟨_, status, body, root, rfl, rfl, (Option.filter_eq_some_iff.1 hans).1, rfl⟩
  exact holds_flProtoExecuteAs hscope (fun _ _ hd => hd) (hstmt _) (fun _ _ hd => hd) (fun _ => rfl)
    fun _ => rfl

/-- The statement holds what an answer says, before its first row, and is set as it was. -/
structure Stmt.HoldsAnswer (stmt before : Stmt) (root : Value) : Prop where
  response : stmt.response = some (decodeResponse root)
  synth : stmt.synth = none
  currentSet : stmt.currentSet = 0
  currentRow : stmt.currentRow = -1
  boundCols : stmt.boundCols = before.boundCols
  maxRows : stmt.maxRows = before.maxRows

/-- In the exchange `t` the statement `sql` was executed, by `p` at last, and `left` holds the answer. -/
structure LeavesAnswer (stmt left : Stmt) (dbc : Dbc) (sql : Bytes) (t : Trace) (p : Post) (status : ℤ)
    (body : Bytes) (root : Value) : Prop where
  posts : ∀ e ∈ t, Executing dbc sql e.1
  last : t.getLast? = some (.post p, .answered status body)
  sql : p.sql = sql
  parses : flJsonParse (cstr body) = some root
  holds : left.HoldsAnswer stmt root

/-- An execution that succeeds leaves the last answer on the statement. -/
theorem executed_of_run {stmt left : Stmt} {sql : Bytes} {dbc dbc' : Dbc} {t : Trace}
    (hrun : Runs (executeSql stmt sql dbc) t (.ok (), left, dbc')) :
    ∃ final p status body root, stmt.delivered sql = .ok final ∧
      LeavesAnswer stmt left dbc final t p status body root := by
  have hsent : ∀ final, Runs (runSql stmt final dbc) t (.ok (), left, dbc') →
      ∃ p status body root, LeavesAnswer stmt left dbc final t p status body root := by
    intro final h
    rw [runSql_eq] at h
    obtain ⟨⟨result, d⟩, hrun, heq⟩ := runs_map_iff.1 h
    have hlast := (holds_fromLast dbc final stmt.multiStatementCount).runs hrun
      (Monitor.admits_of_forall (fun _ _ _ => trivial) none)
    cases result with
    | error e => cases heq
    | ok response =>
      cases herror : response.errorMessage with
      | some message =>
        unfold sqlOutcome at heq
        simp only [herror] at heq
        cases heq
      | none =>
        obtain ⟨p, status, body, root, hg, hp, hparse, rfl⟩ := hlast.2 response rfl herror
        rw [after_executionMonitor, Option.or_none] at hg
        rw [sqlOutcome_ok rfl herror] at heq
        cases heq
        refine ⟨p, status, body, root, ?_, hg, hp, hparse, rfl, rfl, rfl, rfl, rfl, rfl⟩
        rintro ⟨q, reply⟩ hmem
        obtain ⟨t₁, t₂, hsplit⟩ := List.append_of_mem hmem
        exact hlast.1 t₁ q reply t₂ hsplit
  rw [executeSql_eq] at hrun
  cases hdelivered : stmt.delivered sql with
  | error diag =>
    rw [hdelivered] at hrun
    obtain ⟨-, heq⟩ := runs_pure_iff.1 hrun
    cases heq
  | ok final =>
    rw [hdelivered] at hrun
    obtain ⟨p, status, body, root, h⟩ := hsent _ hrun
    exact ⟨final, p, status, body, root, rfl, h⟩

theorem exists_executeSql {stmt : Stmt} {text : Bytes} {length : ℤ} {dbc : Dbc}
    {t : List (Request × HttpReply)} {a : Except Diag Unit × Stmt × Dbc} (hok : a.1 = .ok ())
    (hrun : Runs (sqlExecDirect stmt text length dbc) t a ∨ Runs (sqlExecute stmt dbc) t a) :
    ∃ sql, Runs (executeSql stmt sql dbc) t a := by
  rcases hrun with hrun | hrun
  · exact ⟨_, hrun⟩
  · unfold sqlExecute at hrun
    cases hprepared : stmt.preparedSql with
    | none =>
      rw [hprepared] at hrun
      obtain ⟨-, rfl⟩ := runs_pure_iff.1 hrun
      cases hok
    | some sql =>
      rw [hprepared] at hrun
      exact ⟨sql, hrun⟩

/-! ## From the engine to the application -/

theorem mirrors_decodeResponse {sets : List SentSet} (hcount : sets.length < 2 ^ 31) {root : Value}
    (hroot : IsResponse sets root) : List.Forall₂ Mirrors sets (decodeResponse root).sets := by
  obtain ⟨ms, vs, rfl, hms, hsuccess, hsets, hvs⟩ := hroot
  obtain ⟨-, hdecoded⟩ := decodeResponse_object hms hsuccess hsets
  have hlength : vs.length < 2 ^ 31 := hvs.length_eq ▸ hcount
  rw [hdecoded, toInt_of_lt hlength, Int.toNat_natCast, map_range_getElem? vs decodeSet,
    List.forall₂_map_right_iff]
  exact hvs.imp fun _ _ h => mirrors_decodeSet h

theorem exists_readWithin (sets : List SentSet) : ∃ bound, ∀ n, bound < n → ReadWithin n sets := by
  let sizes := sets.flatMap fun set =>
    set.texts.length :: set.texts.flatMap fun row => row.map fun v => (v.getD []).length
  have hsum : ∀ k ∈ sizes, k ≤ sizes.sum := fun k hk => List.single_le_sum (fun _ _ => Nat.zero_le _) k hk
  refine ⟨sizes.sum, fun n hn => ⟨fun set hset => ?_, fun set hset row hrow v hv => ?_⟩⟩
  · have hmem : set.texts.length ∈ sizes :=
      List.mem_flatMap.2 ⟨set, hset, List.mem_cons_self⟩
    exact lt_of_le_of_lt (hsum _ hmem) hn
  · have hmem : (v.getD []).length ∈ sizes := by
      refine List.mem_flatMap.2 ⟨set, hset, List.mem_cons_of_mem _ ?_⟩
      exact List.mem_flatMap.2 ⟨row, hrow, List.mem_map_of_mem hv⟩
    exact lt_of_le_of_lt (hsum _ hmem) hn

theorem readSets_of_holdsAnswer {sets : List SentSet} (hsome : sets ≠ [])
    (hcount : sets.length < 2 ^ 31) (hwide : ∀ set ∈ sets, set.dataTypes.length < 2 ^ 15) {root : Value}
    (hroot : IsResponse sets root) {stmt left : Stmt} (hleft : left.HoldsAnswer stmt root)
    (hunbound : ∀ bound ∈ stmt.boundCols, bound.bound = false) (beyond : Behind) {sizes : Buffers}
    (hsizes : ∀ i read, 2 ≤ sizes i read) :
    ∃ bound, ∀ fuel, bound ≤ fuel → (readSets beyond sizes fuel fuel left).map Prod.fst =
      some (sets.map fun set => limited stmt.maxRows set.texts) := by
  obtain ⟨bound, hwithin⟩ := exists_readWithin sets
  refine ⟨max (bound + 1) sets.length, fun fuel hfuel => ?_⟩
  have hreads := readSets_eq beyond hsizes (mirrors_decodeResponse hcount hroot) hwide
    (hwithin fuel (by omega)) hleft.synth hleft.response (hleft.boundCols ▸ hunbound) hleft.currentRow
    (by rw [hleft.currentSet]; exact List.length_pos_of_ne_nil hsome)
    (show sets.length - left.currentSet ≤ fuel by omega)
  rw [hleft.currentSet, hleft.maxRows, List.drop_zero] at hreads
  exact hreads

/-- What the engine answers a statement with, in any spelling, is what an application reads that goes
through the results, whatever buffers it reads them through. -/
theorem readSets_of_sent {sets : List SentSet} (hsome : sets ≠ []) (hcount : sets.length < 2 ^ 31)
    (hwide : ∀ set ∈ sets, set.dataTypes.length < 2 ^ 15) {root : Value} {body : Bytes}
    (hroot : IsResponse sets root) (hbody : Serialises root body) {stmt left : Stmt}
    (hunbound : ∀ bound ∈ stmt.boundCols, bound.bound = false) {text : Bytes} {length : ℤ}
    {dbc dbc' : Dbc} {t : List (Request × HttpReply)}
    (hrun : Runs (sqlExecDirect stmt text length dbc) t (.ok (), left, dbc') ∨
      Runs (sqlExecute stmt dbc) t (.ok (), left, dbc')) {q : Request} {status : ℤ}
    (hlast : t.getLast? = some (q, .answered status body)) (beyond : Behind) {sizes : Buffers}
    (hsizes : ∀ i read, 2 ≤ sizes i read) :
    ∃ bound, ∀ fuel, bound ≤ fuel → (readSets beyond sizes fuel fuel left).map Prod.fst =
      some (sets.map fun set => limited stmt.maxRows set.texts) := by
  obtain ⟨sql, hexec⟩ := exists_executeSql rfl hrun
  obtain ⟨final, p, status', body', root', -, hexecuted⟩ := executed_of_run hexec
  cases hlast.symm.trans hexecuted.last
  obtain rfl := Option.some.inj ((flJsonParse_serialises hbody).symm.trans hexecuted.parses)
  exact readSets_of_holdsAnswer hsome hcount hwide hroot hexecuted.holds hunbound beyond hsizes

/-- A statement that is answered at once. -/
theorem exists_run_answered {sets : List SentSet} {root : Value} {body : Bytes}
    (hroot : IsResponse sets root) (hbody : Serialises root body) : ∃ left dbc' q,
    Runs (sqlExecDirect freshStmt (lit "SELECT 1") sqlNts liveDbc) [(q, .answered 200 body)]
      (.ok (), left, dbc') := by
  have hread : readReply liveDbc (.answered 200 body) =
      (.answered (decodeResponse root), absorbSession liveDbc root false) := by
    simp only [readReply, flJsonParse_serialises hbody]
    rfl
  have herror : (decodeResponse root).errorMessage = none := by
    obtain ⟨ms, vs, rfl, hms, hsuccess, hsets, -⟩ := hroot
    exact (decodeResponse_object hms hsuccess hsets).1
  have hexec : Runs (flProtoExecuteCounted liveDbc (lit "SELECT 1") (-1))
      [(.post ⟨.statement ⟨true, true⟩, liveDbc, lit "SELECT 1", -1⟩, .answered 200 body)]
      (finish ⟨true, true⟩ (lit "SELECT 1")
        (.answered (decodeResponse root), absorbSession liveDbc root false)) := by
    show Runs (sendFirst _ _ _ liveDbc) _ _
    unfold sendFirst
    refine runs_post_bind_iff.2 ⟨_, [], rfl, ?_⟩
    rw [hread]
    exact .done _
  have hsql : copySql (lit "SELECT 1") sqlNts = lit "SELECT 1" := by decide
  have hrun : Runs (sqlExecDirect freshStmt (lit "SELECT 1") sqlNts liveDbc)
      [(.post ⟨.statement ⟨true, true⟩, liveDbc, lit "SELECT 1", -1⟩, .answered 200 body)]
      (sqlOutcome (flStmtClearResults freshStmt) (lit "SELECT 1") (finish ⟨true, true⟩ (lit "SELECT 1")
        (.answered (decodeResponse root), absorbSession liveDbc root false))) := by
    unfold sqlExecDirect
    rw [hsql]
    show Runs (runSql freshStmt (lit "SELECT 1") liveDbc) _ _
    rw [runSql_eq]
    exact runs_map_iff.2 ⟨_, hexec, rfl⟩
  unfold finish at hrun
  rw [sqlOutcome_ok rfl herror] at hrun
  exact ⟨_, _, _, hrun⟩

theorem narrow_booleanSet (n : ℕ) :
    ∀ set ∈ List.replicate n booleanSet, set.dataTypes.length < 2 ^ 15 := by
  intro set hset
  rw [List.eq_of_mem_replicate hset]
  decide

theorem readSets_of_sent_boolean : ∃ body left dbc' q, Serialises (booleanAnswer 1) body ∧
    Runs (sqlExecDirect freshStmt (lit "SELECT 1") sqlNts liveDbc) [(q, .answered 200 body)]
      (.ok (), left, dbc') ∧
    ∃ bound, ∀ fuel, bound ≤ fuel →
      (readSets (fun _ _ => []) (fun _ _ => 2) fuel fuel left).map Prod.fst =
        some [[[some (lit "1")]]] := by
  obtain ⟨body, hbody⟩ := exists_serialises_booleanAnswer 0
  have hroot := isResponse_booleanAnswer 1
  obtain ⟨left, dbc', q, hrun⟩ := exists_run_answered hroot hbody
  refine ⟨body, left, dbc', q, hbody, hrun, ?_⟩
  exact readSets_of_sent (by decide) (by decide) (narrow_booleanSet 1) hroot hbody (by simp [freshStmt])
    (.inl hrun) rfl (fun _ _ => []) fun _ _ => le_rfl

end FrostlakeOdbc
