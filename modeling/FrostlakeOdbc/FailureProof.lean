import FrostlakeOdbc.BinaryProof

/-!
# Reads that fail

Every exit of `convert_cell` with an error comes before what it would write, but the one of a binary
cell: there the indicator and the bytes in front are written before two characters are found that do
not make a byte. And a read of a new column starts before it is known to fail, so that the position in
the column read before is given up (`changesNothing_iff`).
-/

namespace FrostlakeOdbc

open CString

/-! ## What a failed read may leave -/

/-- Nothing is written to a buffer, whatever it holds. -/
def LeavesBuffer (stored : Option Stored) : Prop := stored = none ∨ stored = some (.bytes [])

/-- A statement in which nothing is another than before; every column is read on from where it was. -/
structure SameStatement (after before : Stmt) : Prop where
  fields : { after with
    getdataCol := before.getdataCol
    getdataOffset := before.getdataOffset } = before
  positions : ∀ column, readOffset after column = readOffset before column

/-- What a `SQLGetData` that fails leaves as it was: the buffer, the indicator, and all of the
statement with its cursor. Tried again, it fails the same way. -/
structure ChangesNothing (beyond : Behind) (stmt : Stmt) (number : UInt16) (target : Target) :
    Prop where
  buffer : LeavesBuffer (sqlGetData beyond stmt number target).1.stored
  indicator : (sqlGetData beyond stmt number target).1.indicator = none
  statement : SameStatement (sqlGetData beyond stmt number target).2 stmt
  again : (sqlGetData beyond (sqlGetData beyond stmt number target).2 number target).1.ret =
    (sqlGetData beyond stmt number target).1.ret

/-- Two digits stand at the start of a text. -/
def PairInFront (s : Bytes) : Prop :=
  ∃ h l rest, s = h :: l :: rest ∧ (hexNibble h).isSome = true ∧ (hexNibble l).isSome = true

/-- A binary cell is read as `SQL_C_BINARY` into an indicator, or from a place on where two digits
stand. -/
def WritesFirst (stmt : Stmt) (number : UInt16) (target : Target) : Prop :=
  ∃ column cell, OnCell stmt number column cell ∧ cell.isNull = false ∧
    column.sqlType.isBinary = true ∧ target.cTypeFor column = .binary ∧
    (target.strLenOrInd = true ∨
      PairInFront ((cell.text.getD []).drop (readOffset stmt number * 2)))

/-- A statement on a row that has a column of a number. -/
def OnColumn (stmt : Stmt) (number : UInt16) (column : Column) : Prop :=
  ∃ set, flStmtCurrentSet stmt = some set ∧ 0 ≤ stmt.currentRow ∧ stmt.currentRow < set.rowCount ∧
    columnAt set number = some column

/-- The read of a column while another one has been read in part. -/
def GivesUpPosition (stmt : Stmt) (number : UInt16) : Prop :=
  (∃ column, OnColumn stmt number column) ∧ ∃ other, other ≠ number ∧ readOffset stmt other ≠ 0

/-! ## The exits of a conversion -/

variable {text : Bytes} {target : Target} {offset : Option ℕ} {diag : Diag}

/-- A conversion that writes nothing if it fails. -/
def CleanExit (offset : Option ℕ) (one : Conversion) : Prop :=
  ∀ diag, one.ret = .error diag → one.stored = none ∧ one.indicator = none ∧ one.offset = offset

theorem cleanExit_of_ne {one : Conversion} (h : ∀ diag, one.ret ≠ .error diag) : CleanExit offset one :=
  fun diag hdiag => absurd hdiag (h diag)

theorem cleanExit_refuse (sqlstate : String) (message : Bytes) :
    CleanExit offset (refuse offset sqlstate message) := fun _ _ => ⟨rfl, rfl, rfl⟩

theorem cleanExit_fixed (size : ℤ) (value : Stored) : CleanExit offset (fixed target offset size value) :=
  cleanExit_of_ne fun _ h => by cases h

theorem deliver_ne_error (total start copy : ℕ) (content : Bytes) (diag : Diag) :
    (deliver target offset total start copy content).ret ≠ .error diag := by
  unfold deliver
  dsimp only
  split <;> simp

theorem chunked_error {total : ℕ} {k : ℕ → Conversion}
    (h : (chunked target offset total k).ret = .error diag) :
    chunked target offset total k = k (offset.getD 0) ∧ offset.getD 0 ≤ total ∧
      target.probes = false := by
  unfold chunked at h ⊢
  dsimp only at h ⊢
  split at h
  · cases h
  · next hle =>
    split at h
    · cases h
    · next hprobe =>
      rw [if_neg hle, if_neg hprobe]
      refine ⟨rfl, not_lt.1 hle, ?_⟩
      unfold Target.probes
      simpa using hprobe

theorem cleanExit_convertChar : CleanExit offset (convertChar text target offset) := by
  intro diag h
  have hgo := (chunked_error h).1
  unfold convertChar at h
  rw [hgo] at h
  exact absurd h (deliver_ne_error _ _ _ _ _)

theorem cleanExit_convertRaw : CleanExit offset (convertRaw text target offset) := by
  intro diag h
  have hgo := (chunked_error h).1
  unfold convertRaw at h
  rw [hgo] at h
  exact absurd h (deliver_ne_error _ _ _ _ _)

theorem cleanExit_convertInteger (low high : ℤ) (size : ℕ) :
    CleanExit offset (convertInteger low high size text target offset) := by
  unfold convertInteger
  split
  · exact cleanExit_refuse _ _
  · exact cleanExit_refuse _ _
  · split
    · exact cleanExit_refuse _ _
    · exact cleanExit_fixed _ _

theorem cleanExit_convertFloating (size : ℤ) (store : Bytes → Stored) :
    CleanExit offset (convertFloating size store text target offset) := by
  unfold convertFloating
  split
  · exact cleanExit_refuse _ _
  · exact cleanExit_fixed _ _

theorem cleanExit_convertBit : CleanExit offset (convertBit text target offset) := by
  unfold convertBit
  split_ifs
  · exact cleanExit_fixed _ _
  · exact cleanExit_fixed _ _
  · exact cleanExit_fixed _ _
  · exact cleanExit_fixed _ _
  · exact cleanExit_refuse _ _

theorem cleanExit_convertTemporal (size : ℤ) (name : String) (parsed : Option Stored) :
    CleanExit offset (convertTemporal size name parsed text target offset) := by
  unfold convertTemporal
  split
  · exact cleanExit_fixed _ _
  · exact cleanExit_refuse _ _

/-- Every exit but that of a binary cell is clean. -/
theorem cleanExit_convertText (behind : Bytes) {sqlType : SqlType} {cType : CType}
    (hno : ¬(cType = .binary ∧ sqlType.isBinary = true)) :
    CleanExit offset (convertText behind sqlType text target cType offset) := by
  unfold convertText
  cases cType with
  | char => exact cleanExit_convertChar
  | binary =>
    dsimp only
    rw [if_neg fun h => hno ⟨rfl, h⟩]
    exact cleanExit_convertRaw
  | slong => exact cleanExit_convertInteger _ _ _
  | ulong => exact cleanExit_convertInteger _ _ _
  | sshort => exact cleanExit_convertInteger _ _ _
  | ushort => exact cleanExit_convertInteger _ _ _
  | stinyint => exact cleanExit_convertInteger _ _ _
  | tinyint => exact cleanExit_convertInteger _ _ _
  | utinyint => exact cleanExit_convertInteger _ _ _
  | sbigint => exact cleanExit_convertInteger _ _ _
  | ubigint => exact cleanExit_convertInteger _ _ _
  | float => exact cleanExit_convertFloating _ _
  | double => exact cleanExit_convertFloating _ _
  | bit => exact cleanExit_convertBit
  | typeDate => exact cleanExit_convertTemporal _ _ _
  | typeTime => exact cleanExit_convertTemporal _ _ _
  | typeTimestamp => exact cleanExit_convertTemporal _ _ _
  | default => exact cleanExit_refuse _ _
  | other code => exact cleanExit_refuse _ _

/-- Where decoding fails, something has been decoded exactly if a pair stands in front. -/
theorem decodeHex_failed {n : ℕ} {s bytes : Bytes} (h : decodeHex n s = (bytes, false)) :
    bytes = [] ↔ ¬PairInFront s := by
  unfold decodeHex at h
  split at h
  · cases h
  · next c d rest =>
    split at h
    · next high low hc hd =>
      obtain ⟨rfl, -⟩ := Prod.mk.inj h
      refine iff_of_false (List.cons_ne_nil _ _) (not_not.2 ⟨c, d, rest, rfl, ?_, ?_⟩)
      · rw [hc]
        rfl
      · rw [hd]
        rfl
    · next hno =>
      obtain ⟨rfl, -⟩ := Prod.mk.inj h
      refine iff_of_true rfl ?_
      rintro ⟨c', d', rest', heq, hc, hd⟩
      cases heq
      obtain ⟨high, hc⟩ := Option.isSome_iff_exists.1 hc
      obtain ⟨low, hd⟩ := Option.isSome_iff_exists.1 hd
      exact hno high low hc hd
  · next hno =>
    obtain ⟨rfl, -⟩ := Prod.mk.inj h
    refine iff_of_true rfl ?_
    rintro ⟨c', d', rest', heq, -⟩
    exact hno _ _ _ heq

/-- The exit of a binary cell. -/
theorem convertHex_error {start : ℕ} (h : (convertHex text target (some start)).ret = .error diag) :
    (LeavesBuffer (convertHex text target (some start)).stored ↔
      ¬PairInFront (text.drop (start * 2))) ∧
    ((convertHex text target (some start)).indicator = none ↔ target.strLenOrInd = false) ∧
    (convertHex text target (some start)).offset = some start := by
  obtain ⟨-, hstart, hprobe⟩ := chunked_error h
  rw [Option.getD_some] at hstart
  cases hdecode : decodeHex (target.takes (text.length / 2 - start)) (text.drop (start * 2)) with
  | mk bytes ok =>
    rw [convertHex_go hstart hprobe hdecode] at h ⊢
    cases ok with
    | true => exact absurd h (deliver_ne_error _ _ _ _ _)
    | false =>
      rw [if_neg Bool.false_ne_true]
      refine ⟨?_, ?_, rfl⟩
      · rw [← decodeHex_failed hdecode]
        unfold LeavesBuffer
        simp
      · unfold Target.reports
        cases target.strLenOrInd <;> simp

/-! ## The call -/

variable {beyond : Behind} {stmt : Stmt} {number : UInt16} {column : Column} {cell : Cell}

theorem sameStatement_self (stmt : Stmt) : SameStatement stmt stmt := ⟨rfl, fun _ => rfl⟩

/-- The statement on a column that is to be read on from where it is. -/
def turnedTo (stmt : Stmt) (number : UInt16) : Stmt := afterRead stmt number (readOffset stmt number)

theorem sameStatement_turnedTo_iff :
    SameStatement (turnedTo stmt number) stmt ↔
      ∀ other, other ≠ number → readOffset stmt other = 0 := by
  have hother : ∀ other, other ≠ number → readOffset (turnedTo stmt number) other = 0 := by
    intro other hne
    have hcol : ((number.toNat : ℕ) : ℤ) ≠ other.toNat := by
      intro h
      exact hne (UInt16.toNat_inj.1 (Int.ofNat.inj h.symm))
    exact if_pos hcol
  constructor
  · intro h other hne
    rw [← h.positions other]
    exact hother other hne
  · intro h
    refine ⟨rfl, fun other => ?_⟩
    by_cases hsame : other = number
    · rw [hsame]
      exact readOffset_afterRead stmt number _
    · rw [hother other hsame, h other hsame]

theorem OnColumn.turned (h : OnColumn stmt number column) :
    OnColumn (turnedTo stmt number) number column := h

theorem OnCell.turned (h : OnCell stmt number column cell) :
    OnCell (turnedTo stmt number) number column cell := h.afterRead _

theorem readOffset_turnedTo (stmt : Stmt) (number : UInt16) :
    readOffset (turnedTo stmt number) number = readOffset stmt number :=
  readOffset_afterRead stmt number _

/-- Before it comes to a column a call fails without a change. -/
theorem sqlGetData_noColumn (beyond : Behind) (target : Target)
    (h : ∀ column, ¬OnColumn stmt number column) :
    (sqlGetData beyond stmt number target).1.stored = none ∧
      (sqlGetData beyond stmt number target).1.indicator = none ∧
      (sqlGetData beyond stmt number target).2 = stmt := by
  unfold sqlGetData
  split
  · exact ⟨rfl, rfl, rfl⟩
  · next set hset =>
    dsimp only
    split
    · exact ⟨rfl, rfl, rfl⟩
    · next hrow =>
      split
      · exact ⟨rfl, rfl, rfl⟩
      · next column hcolumn =>
        rw [not_or, not_lt, not_le] at hrow
        exact absurd ⟨set, hset, hrow.1, hrow.2, hcolumn⟩ (h column)

/-- On a column whose cell is missing. -/
theorem sqlGetData_noCell (h : OnColumn stmt number column)
    (hno : ∀ cell, ¬OnCell stmt number column cell) :
    sqlGetData beyond stmt number target =
      ({ ret := .error (flDiagSet "07009" (lit "Invalid column number")) },
        turnedTo stmt number) := by
  obtain ⟨set, hset, hrow, hlt, hcolumn⟩ := h
  have hcell : set.cellAt stmt.currentRow (number.toNat - 1) = none := by
    rw [Option.eq_none_iff_forall_ne_some]
    exact fun cell hcell => hno cell ⟨set, hset, hrow, hlt, hcolumn, hcell⟩
  rw [sqlGetData_onColumn beyond hset hrow hlt hcolumn, hcell]
  rfl

/-- Without a binary cell a failed read writes nothing. -/
theorem OnCell.clean (h : OnCell stmt number column cell)
    (hfails : (sqlGetData beyond stmt number target).1.ret = .error diag)
    (hno : ¬(cell.isNull = false ∧ column.sqlType.isBinary = true ∧
      target.cTypeFor column = .binary)) :
    (sqlGetData beyond stmt number target).1.stored = none ∧
      (sqlGetData beyond stmt number target).1.indicator = none ∧
      (sqlGetData beyond stmt number target).2 = turnedTo stmt number := by
  have hclean : CleanExit (some (readOffset stmt number))
      (convertCell (beyond stmt.currentRow (number.toNat - 1)) column cell target
        (some (readOffset stmt number))) := by
    unfold convertCell
    cases hnull : cell.isNull with
    | true =>
      rw [if_pos rfl]
      split
      · exact cleanExit_of_ne fun _ h => by cases h
      · exact cleanExit_refuse _ _
    | false =>
      rw [if_neg Bool.false_ne_true]
      exact cleanExit_convertText _ fun h => hno ⟨hnull, h.2, h.1⟩
  rw [sqlGetData_onCell beyond h] at hfails ⊢
  obtain ⟨hstored, hindicator, hoffset⟩ := hclean diag hfails
  refine ⟨hstored, hindicator, ?_⟩
  dsimp only
  rw [hoffset]
  rfl

theorem OnCell.binary (h : OnCell stmt number column cell) (hnull : cell.isNull = false)
    (hbinary : column.sqlType.isBinary = true) (hcType : target.cTypeFor column = .binary)
    (hfails : (sqlGetData beyond stmt number target).1.ret = .error diag) :
    (LeavesBuffer (sqlGetData beyond stmt number target).1.stored ↔
      ¬PairInFront ((cell.text.getD []).drop (readOffset stmt number * 2))) ∧
    ((sqlGetData beyond stmt number target).1.indicator = none ↔ target.strLenOrInd = false) ∧
    (sqlGetData beyond stmt number target).2 = turnedTo stmt number := by
  have hconvert : convertText (beyond stmt.currentRow (number.toNat - 1)) column.sqlType
      (cell.text.getD []) target .binary (some (readOffset stmt number)) =
      convertHex (cell.text.getD []) target (some (readOffset stmt number)) := if_pos hbinary
  have hgot := sqlGetData_onCell beyond h target
  rw [convertCell_eq _ hnull (.inr rfl) hcType, hconvert] at hgot
  rw [hgot] at hfails ⊢
  obtain ⟨hstored, hindicator, hoffset⟩ := convertHex_error hfails
  refine ⟨hstored, hindicator, ?_⟩
  dsimp only
  rw [hoffset]
  rfl

/-- After a failed read of a column it is read on from where it was. -/
theorem OnColumn.after_failed (h : OnColumn stmt number column)
    (hfails : (sqlGetData beyond stmt number target).1.ret = .error diag) :
    (sqlGetData beyond stmt number target).2 = turnedTo stmt number := by
  by_cases hcell : ∃ cell, OnCell stmt number column cell
  · obtain ⟨cell, hcell⟩ := hcell
    by_cases hbinary : cell.isNull = false ∧ column.sqlType.isBinary = true ∧
        target.cTypeFor column = .binary
    · exact (hcell.binary hbinary.1 hbinary.2.1 hbinary.2.2 hfails).2.2
    · exact (hcell.clean hfails hbinary).2.2
  · rw [sqlGetData_noCell h fun cell hc => hcell ⟨cell, hc⟩]

/-- A failed read is tried again in vain. -/
theorem OnColumn.again (h : OnColumn stmt number column)
    (hfails : (sqlGetData beyond stmt number target).1.ret = .error diag) :
    (sqlGetData beyond (sqlGetData beyond stmt number target).2 number target).1.ret =
      (sqlGetData beyond stmt number target).1.ret := by
  rw [h.after_failed hfails]
  by_cases hcell : ∃ cell, OnCell stmt number column cell
  · obtain ⟨cell, hcell⟩ := hcell
    rw [sqlGetData_onCell beyond hcell, sqlGetData_onCell beyond hcell.turned,
      readOffset_turnedTo]
    rfl
  · have hno : ∀ cell, ¬OnCell stmt number column cell := fun cell hc => hcell ⟨cell, hc⟩
    rw [sqlGetData_noCell h hno, sqlGetData_noCell h.turned fun cell hc => hno cell ⟨hc.exists_set⟩]

/-! ## What a failed read changes -/

theorem onColumn_unique {a b : Column} (ha : OnColumn stmt number a) (hb : OnColumn stmt number b) :
    a = b := by
  obtain ⟨set, hset, -, -, hcolumn⟩ := ha
  obtain ⟨set', hset', -, -, hcolumn'⟩ := hb
  rw [hset] at hset'
  cases hset'
  rw [hcolumn] at hcolumn'
  exact Option.some.inj hcolumn'

theorem OnCell.onColumn (h : OnCell stmt number column cell) : OnColumn stmt number column := by
  obtain ⟨set, hset, hrow, hlt, hcolumn, -⟩ := h.exists_set
  exact ⟨set, hset, hrow, hlt, hcolumn⟩

theorem OnCell.unique {a b : Cell} (ha : OnCell stmt number column a)
    (hb : OnCell stmt number column b) : a = b := by
  obtain ⟨set, hset, -, -, -, hcell⟩ := ha.exists_set
  obtain ⟨set', hset', -, -, -, hcell'⟩ := hb.exists_set
  rw [hset] at hset'
  cases hset'
  rw [hcell] at hcell'
  exact Option.some.inj hcell'

/-- What a failed read writes is written before a binary cell is found malformed. -/
theorem writes_nothing_iff (hfails : (sqlGetData beyond stmt number target).1.ret = .error diag) :
    (LeavesBuffer (sqlGetData beyond stmt number target).1.stored ∧
      (sqlGetData beyond stmt number target).1.indicator = none) ↔ ¬WritesFirst stmt number target := by
  have hclean : ∀ {got : GotData}, got.stored = none ∧ got.indicator = none →
      (¬WritesFirst stmt number target) →
      ((LeavesBuffer got.stored ∧ got.indicator = none) ↔ ¬WritesFirst stmt number target) :=
    fun hgot hno => iff_of_true ⟨.inl hgot.1, hgot.2⟩ hno
  by_cases hcolumn : ∃ column, OnColumn stmt number column
  · obtain ⟨column, hcolumn⟩ := hcolumn
    by_cases hcell : ∃ cell, OnCell stmt number column cell
    · obtain ⟨cell, hcell⟩ := hcell
      by_cases hbinary : cell.isNull = false ∧ column.sqlType.isBinary = true ∧
          target.cTypeFor column = .binary
      · obtain ⟨hstored, hindicator, -⟩ := hcell.binary hbinary.1 hbinary.2.1 hbinary.2.2 hfails
        rw [hstored, hindicator]
        constructor
        · rintro ⟨hpair, hind⟩ ⟨column', cell', hcell', -, -, -, hwrites⟩
          obtain rfl := onColumn_unique hcolumn hcell'.onColumn
          obtain rfl := hcell.unique hcell'
          rcases hwrites with h | h
          · rw [hind] at h
            cases h
          · exact hpair h
        · intro hno
          refine ⟨fun hpair => hno ?_, ?_⟩
          · exact ⟨column, cell, hcell, hbinary.1, hbinary.2.1, hbinary.2.2, .inr hpair⟩
          · rw [← Bool.not_eq_true]
            exact fun hind => hno ⟨column, cell, hcell, hbinary.1, hbinary.2.1, hbinary.2.2, .inl hind⟩
      · obtain ⟨hstored, hindicator, -⟩ := hcell.clean hfails hbinary
        refine hclean ⟨hstored, hindicator⟩ ?_
        rintro ⟨column', cell', hcell', hnull, hbin, hcType, -⟩
        obtain rfl := onColumn_unique hcolumn hcell'.onColumn
        obtain rfl := hcell.unique hcell'
        exact hbinary ⟨hnull, hbin, hcType⟩
    · have hno : ∀ cell, ¬OnCell stmt number column cell := fun cell hc => hcell ⟨cell, hc⟩
      rw [sqlGetData_noCell hcolumn hno]
      refine hclean ⟨rfl, rfl⟩ ?_
      rintro ⟨column', cell', hcell', -⟩
      obtain rfl := onColumn_unique hcolumn hcell'.onColumn
      exact hno cell' hcell'
  · have hno : ∀ column, ¬OnColumn stmt number column := fun column hc => hcolumn ⟨column, hc⟩
    obtain ⟨hstored, hindicator, -⟩ := sqlGetData_noColumn beyond target hno
    refine hclean ⟨hstored, hindicator⟩ ?_
    rintro ⟨column', cell', hcell', -⟩
    exact hno column' hcell'.onColumn

/-- A failed read leaves the statement as it was but for the position in another column. -/
theorem sameStatement_iff (hfails : (sqlGetData beyond stmt number target).1.ret = .error diag) :
    SameStatement (sqlGetData beyond stmt number target).2 stmt ↔ ¬GivesUpPosition stmt number := by
  by_cases hcolumn : ∃ column, OnColumn stmt number column
  · have hafter := hcolumn.choose_spec.after_failed hfails
    rw [hafter, sameStatement_turnedTo_iff]
    constructor
    · rintro h ⟨-, other, hne, hoffset⟩
      exact hoffset (h other hne)
    · intro h other hne
      by_contra hoffset
      exact h ⟨hcolumn, other, hne, hoffset⟩
  · have hno : ∀ column, ¬OnColumn stmt number column := fun column hc => hcolumn ⟨column, hc⟩
    rw [(sqlGetData_noColumn beyond target hno).2.2]
    exact iff_of_true (sameStatement_self stmt) fun h => hcolumn h.1

/-- A failed read changes nothing, unless a binary cell is found malformed after something has been
written, or the position in another column is given up. -/
theorem changesNothing_iff (hfails : (sqlGetData beyond stmt number target).1.ret = .error diag) :
    ChangesNothing beyond stmt number target ↔
      ¬WritesFirst stmt number target ∧ ¬GivesUpPosition stmt number := by
  rw [← writes_nothing_iff hfails, ← sameStatement_iff hfails]
  constructor
  · exact fun h => ⟨⟨h.buffer, h.indicator⟩, h.statement⟩
  · rintro ⟨⟨hbuffer, hindicator⟩, hstatement⟩
    refine ⟨hbuffer, hindicator, hstatement, ?_⟩
    by_cases hcolumn : ∃ column, OnColumn stmt number column
    · exact hcolumn.choose_spec.again hfails
    · rw [(sqlGetData_noColumn beyond target fun column hc => hcolumn ⟨column, hc⟩).2.2]

/-- A text that is no number. -/
theorem changesNothing_iff_number :
    ChangesNothing (fun _ _ => []) snowStmt 1 ⟨.slong, true, 4, true⟩ ↔
      ¬WritesFirst snowStmt 1 ⟨.slong, true, 4, true⟩ ∧ ¬GivesUpPosition snowStmt 1 :=
  changesNothing_iff rfl

/-- The first byte and the length are written before the third character is looked at. -/
theorem changesNothing_malformed :
    (sqlGetData (fun _ _ => []) (binaryStmt "41zz") 1 ⟨.binary, true, 8, true⟩).1.ret =
        .error invalidHex ∧
      ¬ChangesNothing (fun _ _ => []) (binaryStmt "41zz") 1 ⟨.binary, true, 8, true⟩ := by
  have hret : (sqlGetData (fun _ _ => []) (binaryStmt "41zz") 1 ⟨.binary, true, 8, true⟩).1.ret =
      .error invalidHex := rfl
  refine ⟨hret, fun h => ?_⟩
  have hindicator := h.indicator
  cases hindicator

end FrostlakeOdbc
