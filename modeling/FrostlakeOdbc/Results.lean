import FrostlakeOdbc.Execute
import FrostlakeOdbc.Lib.CNumber
import FrostlakeOdbc.Lib.Utf8

/-!
# Fetching and converting (`results.c`, and `SQLMoreResults` of `execute.c`)

A conversion is given as what it answers and what it writes. The values of floating-point numbers
are left at the text they are read from.
-/

namespace FrostlakeOdbc

open CString

/-- What a call on a statement answers, with the diagnostic it leaves. -/
inductive SqlReturn : Type where
  | success
  | successWithInfo (diag : Diag)
  | noData
  | error (diag : Diag)
  deriving DecidableEq

/-- What is written to a buffer. -/
inductive Stored : Type where
  /-- The bytes at its start. -/
  | bytes (content : Bytes)
  /-- An integer of `size` bytes, with what its bits are as an unsigned number. -/
  | integer (size : ℕ) (bits : ℕ)
  /-- A `SQLREAL` and a `SQLDOUBLE`, with the text `strtod` reads. -/
  | float (text : Bytes)
  | double (text : Bytes)
  | date (year : Int16) (month day : UInt16)
  | time (hour minute second : UInt16)
  | timestamp (year : Int16) (month day hour minute second : UInt16) (fraction : UInt32)
  deriving DecidableEq

/-- What a conversion does. An `offset` of `none` is the `NULL` pointer. -/
structure Conversion where
  ret : SqlReturn
  stored : Option Stored := none
  indicator : Option ℤ := none
  offset : Option ℕ

/-! ## Conversions -/

/-- `default_c_type`. -/
def defaultCType : SqlType → CType
  | .bigint => .sbigint
  | .integer => .slong
  | .smallint => .sshort
  | .tinyint => .stinyint
  | .double => .double
  | .bit => .bit
  | .typeDate => .typeDate
  | .typeTime => .typeTime
  | .typeTimestamp => .typeTimestamp
  | .varbinary => .binary
  | _ => .char

/-- `SQL_BINARY`. -/
def sqlBinary : ℤ := -2

/-- Whether the cells of a column cross as hexadecimal text. -/
def SqlType.isBinary : SqlType → Bool
  | .varbinary => true
  | .other code => code = sqlBinary
  | _ => false

/-- `hex_nibble`. -/
def hexNibble (c : UInt8) : Option ℕ := digitValue 16 c

/-- The loop that backs a cut up to the start of a character. -/
def backUp (s : Bytes) : ℕ → ℕ
  | 0 => 0
  | n + 1 => if Utf8.isContinuation (s.getD (n + 1) 0) then backUp s n else n + 1

/-- Where a piece of `s` that has to be cut within `copy` bytes is cut. -/
def cutWhole (s : Bytes) (copy : ℕ) : ℕ :=
  let whole := backUp s copy
  if 0 < whole then whole else copy

def truncated : Diag := flDiagSet "01004" (lit "String data, right truncated")

/-- A piece of a value of `total` bytes: `copy` bytes of it from `start` on. -/
def deliver (target : Target) (offset : Option ℕ) (total start copy : ℕ) (content : Bytes) :
    Conversion :=
  { ret := if copy < total - start then .successWithInfo truncated else .success
    stored := some (.bytes content)
    indicator := if target.strLenOrInd then some (total - start : ℕ) else none
    -- a value that has been delivered in full is parked behind its end
    offset := offset.map fun _ => if copy < total - start then start + copy else total + 1 }

/-- The start of the cases for `SQL_C_CHAR` and `SQL_C_BINARY`: the value was read to its end, or only
its length is asked for, or `k` goes on. -/
def chunked (target : Target) (offset : Option ℕ) (total : ℕ) (k : ℕ → Conversion) : Conversion :=
  let start := offset.getD 0
  if total < start then { ret := .noData, offset := offset }
  else if !target.buffer || target.bufferLength ≤ 0 then
    { ret := .success
      indicator := if target.strLenOrInd then some (total - start : ℕ) else none
      offset := offset }
  else k start

/-- The `SQL_C_CHAR` case of `convert_cell`. -/
def convertChar (text : Bytes) (target : Target) (offset : Option ℕ) : Conversion :=
  chunked target offset text.length fun start =>
    let rest := text.drop start
    let room := target.bufferLength.toNat - 1
    let copy := if rest.length < room then rest.length else room
    let copy := if copy < rest.length then cutWhole rest copy else copy
    deliver target offset text.length start copy (rest.take copy ++ [0])

/-- The loop that decodes `n` bytes: what it writes, and whether it gets through. -/
def decodeHex : ℕ → Bytes → Bytes × Bool
  | 0, _ => ([], true)
  | n + 1, h :: l :: rest =>
      match hexNibble h, hexNibble l with
      | some high, some low =>
          let (bytes, ok) := decodeHex n rest
          (UInt8.ofNat (high * 16 + low) :: bytes, ok)
      | _, _ => ([], false)
  | _ + 1, _ => ([], false)

/-- The `SQL_C_BINARY` case, for a binary column. -/
def convertHex (text : Bytes) (target : Target) (offset : Option ℕ) : Conversion :=
  let total := text.length / 2
  chunked target offset total fun start =>
    let room := target.bufferLength.toNat
    let copy := if total - start < room then total - start else room
    let (bytes, ok) := decodeHex copy (text.drop (start * 2))
    if ok then deliver target offset total start copy bytes
    else
      { ret := .error (flDiagSet "22018" (lit "BINARY cell is not valid hex"))
        stored := some (.bytes bytes)
        indicator := if target.strLenOrInd then some (total - start : ℕ) else none
        offset := offset }

/-- The `SQL_C_BINARY` case, for any other column. -/
def convertRaw (text : Bytes) (target : Target) (offset : Option ℕ) : Conversion :=
  chunked target offset text.length fun start =>
    let rest := text.drop start
    let room := target.bufferLength.toNat
    let copy := if rest.length < room then rest.length else room
    deliver target offset text.length start copy (rest.take copy)

/-- A value of fixed size. -/
def fixed (target : Target) (offset : Option ℕ) (size : ℤ) (value : Stored) : Conversion :=
  { ret := .success
    stored := if target.buffer then some value else none
    indicator := if target.strLenOrInd then some size else none
    offset := offset }

def refuse (offset : Option ℕ) (sqlstate : String) (message : Bytes) : Conversion :=
  { ret := .error (flDiagSet sqlstate message), offset := offset }

/-- `invalid_number`. -/
def invalidNumber (offset : Option ℕ) (text : Bytes) : Conversion :=
  refuse offset "22018" (lit "Invalid character value for cast: '" ++ text ++ lit "'")

/-- `out_of_range`. -/
def outOfRange (offset : Option ℕ) : Conversion :=
  refuse offset "22003" (lit "Numeric value out of range")

/-- What `parse_integer` answers. -/
inductive ParsedInteger : Type where
  | value (n : ℤ)
  | notNumber
  | outOfRange
  deriving DecidableEq

/-- `parse_integer`. -/
def parseInteger (text : Bytes) : ParsedInteger :=
  match strtoll text with
  | none => .notNumber
  | some (value, rest) =>
      if value < longMin ∨ longMax < value then .outOfRange
      else
        let rest := if rest.head? = some (ch '.') then (rest.drop 1).dropWhile isDigit else rest
        if rest.dropWhile (fun c => c = ch ' ') = [] then .value value else .notNumber

/-- The cases for the integer types: a value from `low` to `high` is stored in `size` bytes. -/
def convertInteger (low high : ℤ) (size : ℕ) (text : Bytes) (target : Target) (offset : Option ℕ) :
    Conversion :=
  match parseInteger text with
  | .outOfRange => outOfRange offset
  | .notNumber => invalidNumber offset text
  | .value n =>
      if n < low ∨ high < n then outOfRange offset
      else fixed target offset size (.integer size (n % 2 ^ (8 * size)).toNat)

/-- The cases for the floating-point types. -/
def convertFloating (size : ℤ) (store : Bytes → Stored) (text : Bytes) (target : Target)
    (offset : Option ℕ) : Conversion :=
  if strtodLength text = 0 then invalidNumber offset text
  else fixed target offset size (store (text.take (strtodLength text)))

/-- The `SQL_C_BIT` case. -/
def convertBit (text : Bytes) (target : Target) (offset : Option ℕ) : Conversion :=
  if text = lit "1" ∨ strcaseeq text (lit "true") then fixed target offset 1 (.integer 1 1)
  else if text = lit "0" ∨ strcaseeq text (lit "false") then fixed target offset 1 (.integer 1 0)
  else if parseInteger text = .value 0 then fixed target offset 1 (.integer 1 0)
  else if parseInteger text = .value 1 then fixed target offset 1 (.integer 1 1)
  else invalidNumber offset text

/-! ## Dates and times

`memory` is what lies in memory from the start of a text on: the text, its NUL, and what is behind
it. -/

/-- `parse_date_part`. -/
def parseDatePart (memory : Bytes) : Option (Int16 × UInt16 × UInt16) :=
  (sscanfThree 4 (ch '-') (cstr memory)).map fun (year, month, day) =>
    (Int16.ofInt year, UInt16.ofNat (month % 2 ^ 16).toNat, UInt16.ofNat (day % 2 ^ 16).toNat)

/-- The fraction of a second behind a time, in nanoseconds. -/
def parseFraction (rest : Bytes) : UInt32 :=
  if rest.head? = some (ch '.') then
    let digits := ((rest.drop 1).takeWhile isDigit).take 9
    UInt32.ofNat (leadingValue 10 0 digits * 10 ^ (9 - digits.length))
  else 0

/-- `parse_time_part`: the time, and the fraction of a second that stands behind its 8 bytes. -/
def parseTimePart (memory : Bytes) : Option ((UInt16 × UInt16 × UInt16) × UInt32) :=
  (sscanfThree 2 (ch ':') (cstr memory)).map fun (hour, minute, second) =>
    ((UInt16.ofNat (hour % 2 ^ 16).toNat, UInt16.ofNat (minute % 2 ^ 16).toNat,
      UInt16.ofNat (second % 2 ^ 16).toNat), parseFraction (memory.drop 8))

/-- `parse_timestamp`. -/
def parseTimestamp (memory : Bytes) : Option Stored := do
  let (year, month, day) ← parseDatePart memory
  let rest := memory.drop 10
  if rest.head? = some (ch ' ') ∨ rest.head? = some (ch 'T') then
    let ((hour, minute, second), fraction) ← parseTimePart (rest.drop 1)
    return .timestamp year month day hour minute second fraction
  else return .timestamp year month day 0 0 0 0

/-- The cases for the temporal types: `parsed` is stored. -/
def convertTemporal (size : ℤ) (name : String) (parsed : Option Stored) (text : Bytes)
    (target : Target) (offset : Option ℕ) : Conversion :=
  match parsed with
  | some value => fixed target offset size value
  | none => refuse offset "22018" (lit "Cannot read '" ++ text ++ lit "' as a " ++ lit name)

/-! ## One cell -/

/-- The text of a boolean for everything but a character or a binary read. -/
def booleanText (text : Bytes) : Bytes :=
  if text = lit "true" then lit "1" else if text = lit "false" then lit "0" else text

/-- The cases of `convert_cell`, for a text with `beyond` behind its NUL. -/
def convertText (beyond : Bytes) (sqlType : SqlType) (text : Bytes) (target : Target) (cType : CType)
    (offset : Option ℕ) : Conversion :=
  let memory := text ++ 0 :: beyond
  match cType with
  | .char => convertChar text target offset
  | .binary =>
      if sqlType.isBinary then convertHex text target offset else convertRaw text target offset
  | .slong => convertInteger (-2 ^ 31) (2 ^ 31 - 1) 4 text target offset
  | .ulong => convertInteger 0 (2 ^ 32 - 1) 4 text target offset
  | .sshort => convertInteger (-2 ^ 15) (2 ^ 15 - 1) 2 text target offset
  | .ushort => convertInteger 0 (2 ^ 16 - 1) 2 text target offset
  | .stinyint | .tinyint | .utinyint => convertInteger (-128) 255 1 text target offset
  | .sbigint | .ubigint => convertInteger longMin longMax 8 text target offset
  | .float => convertFloating 4 .float text target offset
  | .double => convertFloating 8 .double text target offset
  | .bit => convertBit text target offset
  | .typeDate =>
      let parsed := (parseDatePart memory).map fun (year, month, day) => .date year month day
      convertTemporal 6 "DATE" parsed text target offset
  | .typeTime =>
      let parsed := (parseTimePart memory).map fun ((hour, minute, second), _) =>
        .time hour minute second
      convertTemporal 6 "TIME" parsed text target offset
  | .typeTimestamp => convertTemporal 16 "TIMESTAMP" (parseTimestamp memory) text target offset
  | .default => refuse offset "HYC00" (lit "Unsupported target C type 99")
  | .other code => refuse offset "HYC00" (lit "Unsupported target C type " ++ intText code.toInt)

/-- `convert_cell`. -/
def convertCell (beyond : Bytes) (column : Column) (cell : Cell) (target : Target)
    (offset : Option ℕ) : Conversion :=
  if cell.isNull then
    if target.strLenOrInd then { ret := .success, indicator := some sqlNullData, offset := offset }
    else refuse offset "22002" (lit "Indicator variable required but not supplied")
  else
    let text := cell.text.getD []
    let cType := if target.cType = .default then defaultCType column.sqlType else target.cType
    let text := if cell.kind = 'b' ∧ cType ≠ .char ∧ cType ≠ .binary then booleanText text else text
    convertText beyond column.sqlType text target cType offset

/-! ## Binding and fetching -/

/-- `column_at`; the count of the columns is brought into the range of a `SQLUSMALLINT`. -/
def columnAt (set : ResultSet) (number : UInt16) : Option Column :=
  if number.toNat < 1 ∨ set.columnCount % 2 ^ 16 < number.toNat then none
  else set.columns[number.toNat - 1]?

/-- The cell of a row in the column at an index, counted from 0. -/
def ResultSet.cellAt (set : ResultSet) (row : ℤ) (index : ℕ) : Option Cell :=
  set.cells[(row * set.columnCount + index).toNat]?

/-- `SQLBindCol`. -/
def sqlBindCol (stmt : Stmt) (number : UInt16) (target : Target) : SqlReturn × Stmt :=
  if number.toNat < 1 then (.error (flDiagSet "07009" (lit "Invalid column number")), stmt)
  else
    let unbound : BoundCol := ⟨⟨.other 0, false, 0, false⟩, false⟩
    let grown := stmt.boundCols ++ List.replicate (number.toNat - stmt.boundCols.length) unbound
    let bind (bound : BoundCol) : BoundCol :=
      if target.buffer then ⟨target, true⟩ else { bound with bound := false }
    (.success, { stmt with boundCols := grown.modify (number.toNat - 1) bind })

/-- What `SQLFetch` answers and writes: the conversions of the bound columns, and the number of rows
and the status of the row where they are asked for. -/
structure Fetched where
  ret : SqlReturn
  columns : List (ℕ × Conversion) := []
  rowsFetched : Option ℕ := none
  rowStatus : Option Bool := none

/-- What lies in memory behind the text of a cell, by its row and its index. -/
abbrev Behind := ℤ → ℕ → Bytes

/-- The loop that delivers the bound columns of a row, from the index `i` on; a conversion that fails
ends it. -/
def deliverColumns (beyond : Behind) (set : ResultSet) (row : ℤ) :
    ℕ → List (BoundCol × Column) → SqlReturn → SqlReturn × List (ℕ × Conversion)
  | _, [], ret => (ret, [])
  | i, (bound, column) :: rest, ret =>
      if !bound.bound then deliverColumns beyond set row (i + 1) rest ret
      else
        match set.cellAt row i with
        | none => (ret, [])
        | some cell =>
            let one := convertCell (beyond row i) column cell bound.target none
            match one.ret with
            | .success =>
                let (ret, conversions) := deliverColumns beyond set row (i + 1) rest ret
                (ret, (i, one) :: conversions)
            | .successWithInfo diag =>
                let (ret, conversions) :=
                  deliverColumns beyond set row (i + 1) rest (.successWithInfo diag)
                (ret, (i, one) :: conversions)
            | ret => (ret, [(i, one)])

/-- The number of rows of a set `SQLFetch` goes to. -/
def rowLimit (set : ResultSet) (maxRows : ℕ) : ℤ :=
  if 0 < maxRows ∧ (maxRows : ℤ) < set.rowCount % 2 ^ 64 then toInt maxRows else set.rowCount

/-- `SQLFetch`, and `SQLFetchScroll` of the next row. -/
def sqlFetch (beyond : Behind) (stmt : Stmt) : Fetched × Stmt :=
  match flStmtCurrentSet stmt with
  | none => ({ ret := .error (flDiagSet "24000" (lit "No result set")) }, stmt)
  | some set =>
      if rowLimit set stmt.maxRows ≤ stmt.currentRow + 1 then
        ({ ret := .noData
           rowsFetched := if stmt.rowsFetchedPtr then some 0 else none
           rowStatus := if stmt.rowStatusPtr then some false else none },
          { stmt with currentRow := set.rowCount })
      else
        let stmt := { stmt with
          currentRow := stmt.currentRow + 1
          getdataCol := -1
          getdataOffset := 0 }
        let (ret, conversions) :=
          deliverColumns beyond set stmt.currentRow 0 (stmt.boundCols.zip set.columns) .success
        ({ ret := ret
           columns := conversions
           rowsFetched := if stmt.rowsFetchedPtr then some 1 else none
           rowStatus := if stmt.rowStatusPtr then some true else none }, stmt)

/-- The cell a `SQLGetData` reads, and the offset in it. -/
structure CellRead where
  row : ℤ
  index : ℕ
  offset : ℕ
  deriving DecidableEq

/-- What `SQLGetData` answers and writes, and the cell it reads if it gets to one. -/
structure GotData where
  ret : SqlReturn
  read : Option CellRead := none
  stored : Option Stored := none
  indicator : Option ℤ := none

/-- `SQLGetData`. -/
def sqlGetData (beyond : Behind) (stmt : Stmt) (number : UInt16) (target : Target) :
    GotData × Stmt :=
  let unpositioned : GotData := { ret := .error (flDiagSet "24000" (lit "Not positioned on a row")) }
  let noColumn : GotData := { ret := .error (flDiagSet "07009" (lit "Invalid column number")) }
  match flStmtCurrentSet stmt with
  | none => (unpositioned, stmt)
  | some set =>
      if stmt.currentRow < 0 ∨ set.rowCount ≤ stmt.currentRow then (unpositioned, stmt)
      else
        match columnAt set number with
        | none => (noColumn, stmt)
        | some column =>
            -- a new column starts a fresh read
            let stmt := if stmt.getdataCol ≠ number.toNat then
                { stmt with getdataCol := number.toNat, getdataOffset := 0 }
              else stmt
            let index := number.toNat - 1
            match set.cellAt stmt.currentRow index with
            | none => (noColumn, stmt)
            | some cell =>
                let behind := beyond stmt.currentRow index
                let one := convertCell behind column cell target (some stmt.getdataOffset)
                ({ ret := one.ret
                   read := some ⟨stmt.currentRow, index, stmt.getdataOffset⟩
                   stored := one.stored
                   indicator := one.indicator },
                  { stmt with getdataOffset := one.offset.getD 0 })

/-! ## The other calls that move a cursor -/

/-- `SQLMoreResults`. -/
def sqlMoreResults (stmt : Stmt) : SqlReturn × Stmt :=
  match stmt.synth, stmt.response with
  | none, some response =>
      if response.sets.length ≤ stmt.currentSet + 1 then (.noData, stmt)
      else
        let stmt := { stmt with
          currentSet := stmt.currentSet + 1
          currentRow := -1
          getdataCol := -1
          getdataOffset := 0 }
        let rowCount :=
          match flStmtCurrentSet stmt with
          | some set =>
              let affected := flRowsAffected set
              if 0 ≤ affected then affected else set.rowCount
          | none => stmt.rowCount
        (.success, { stmt with rowCount := rowCount })
  | _, _ => (.noData, stmt)

/-- The `SQL_ATTR_MAX_ROWS` case of `SQLSetStmtAttr`. -/
def setMaxRows (stmt : Stmt) (value : ℕ) : SqlReturn × Stmt :=
  (.success, { stmt with maxRows := value })

end FrostlakeOdbc
