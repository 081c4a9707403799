import FrostlakeOdbc.Execute
import FrostlakeOdbc.Lib.Heap
import FrostlakeOdbc.Proto

/-!
# The growable buffer (`json.c`)

`fl_strbuf` and the functions that build a request and a substituted statement in one, down to the
calls of the allocator and the bytes that are stored. Elsewhere in the model a buffer is the text it
holds; here it is three machine words and a block of the heap, and an allocation may fail.
-/

namespace FrostlakeOdbc

open CString Exchange

/-- A program over the heap of bytes. -/
abbrev Alloc := Client (HeapCall UInt8) (Allocated UInt8)

/-! ## Growing -/

/-- `fl_strbuf`: the address of its block, how much of it is used and how large it is. -/
structure FlStrbuf where
  data : ℕ
  length : ℕ
  capacity : ℕ
  deriving DecidableEq

/-- `fl_strbuf_init`. -/
def flStrbufInit : FlStrbuf := ⟨0, 0, 0⟩

/-- How a function that works on a buffer ends: it succeeds, it fails, with the record it sets, or the
loop of `strbuf_reserve` does not come to its end. -/
inductive Ended : Type where
  | ok
  | failed (diag : Option Diag)
  | hangs
  deriving DecidableEq

/-- A function that works on a buffer. -/
abbrev Building := FlStrbuf → Alloc (Ended × FlStrbuf)

/-- The values of a `size_t`. -/
def sizeValues : ℕ := 2 ^ 64

/-- The loop of `strbuf_reserve`. The size is 0 after 64 rounds at the latest, and stays so. -/
def doubleUntil (needed : ℕ) : ℕ → ℕ → Option ℕ
  | 0, wanted => if needed ≤ wanted then some wanted else none
  | fuel + 1, wanted =>
      if needed ≤ wanted then some wanted else doubleUntil needed fuel (wanted * 2 % sizeValues)

/-- `strbuf_reserve`. -/
def strbufReserve (extra : ℕ) : Building := fun buf =>
  let needed := (buf.length + extra + 1) % sizeValues
  if needed ≤ buf.capacity then return (.ok, buf)
  else
    match doubleUntil needed 64 (if buf.capacity ≠ 0 then buf.capacity else 256) with
    | none => return (.hangs, buf)
    | some wanted => do
        let grown ← Client.call (.realloc buf.data wanted)
        if grown.address = 0 then return (.failed none, buf)
        else return (.ok, { buf with data := grown.address, capacity := wanted })

/-- `fl_strbuf_append_len`. -/
def flStrbufAppendLen (text : Bytes) : Building := fun buf => do
  let (ended, buf) ← strbufReserve text.length buf
  match ended with
  | .ok =>
      let _ ← Client.call (.store buf.data buf.length text)
      let buf := { buf with length := (buf.length + text.length) % sizeValues }
      let _ ← Client.call (.store buf.data buf.length [0])
      return (.ok, buf)
  | ended => return (ended, buf)

/-- `fl_strbuf_append`. -/
def flStrbufAppend (text : Bytes) : Building := flStrbufAppendLen (cstr text)

/-- `fl_strbuf_free`. -/
def flStrbufFree (buf : FlStrbuf) : Alloc FlStrbuf := do
  let _ ← Client.call (.free buf.data)
  return flStrbufInit

namespace Building

/-- Nothing more is done to the buffer. -/
def done : Building := fun buf => return (.ok, buf)

/-- The buffer is left as it is, and the record is set. -/
def fails (diag : Diag) : Building := fun buf => return (.failed (some diag), buf)

/-- One after the other, as long as they succeed. -/
def andThen (p q : Building) : Building := fun buf => do
  let (ended, buf) ← p buf
  match ended with
  | .ok => q buf
  | ended => return (ended, buf)

/-- One for each of the bytes, as long as they succeed. -/
def each (p : UInt8 → Building) : Bytes → Building
  | [] => done
  | c :: rest => (p c).andThen (each p rest)

/-- A text built in a buffer of its own: the block is handed over, or given back where it fails. -/
def run (p : Building) : Alloc (Ended × ℕ) := do
  let (ended, buf) ← p flStrbufInit
  match ended with
  | .ok => return (.ok, buf.data)
  | .failed diag => do
      let _ ← flStrbufFree buf
      return (.failed diag, 0)
  | .hangs => return (.hangs, 0)

end Building

namespace OnHeap

open Building

/-! ## Requests -/

/-- `fl_strbuf_append_json_string`. -/
def flStrbufAppendJsonString (text : Bytes) : Building :=
  (flStrbufAppendLen (lit "\"")).andThen <|
  (each (fun c => flStrbufAppend (escapeByte c)) (cstr text)).andThen <|
  flStrbufAppendLen (lit "\"")

/-- `build_request_json`. -/
def buildRequestJson (dbc : Dbc) (sql : Bytes) (count : ℤ) : Alloc (Ended × ℕ) :=
  run <|
    (flStrbufAppend (lit "\x7b\"sql\":")).andThen <|
    (flStrbufAppendJsonString sql).andThen <|
    (match dbc.sessionId with
      | some id =>
          (flStrbufAppend (lit ",\"sessionId\":")).andThen <|
          (flStrbufAppendJsonString id).andThen <|
          if dbc.tracksSessions = 1 then flStrbufAppend (lit ",\"requireSession\":true") else done
      | none => done).andThen <|
    (if 0 ≤ count then
        flStrbufAppend (snprintf 48 (lit ",\"multiStatementCount\":" ++ intText count))
      else done).andThen <|
    flStrbufAppend (lit ",\"autoCommit\":true\x7d")

/-! ## Parameters -/

/-- `append_number`. -/
def appendNumber (text : Bytes) : Building :=
  if (text.dropWhile isParamBlank).head? = some (ch '-') then
    (flStrbufAppend (lit "(")).andThen <|
    (flStrbufAppendLen text).andThen <|
    flStrbufAppend (lit ")")
  else flStrbufAppendLen text

/-- `append_string_literal`. -/
def appendStringLiteral (text : Bytes) : Building :=
  (flStrbufAppend (lit "'")).andThen <|
  (each (fun c => flStrbufAppendLen (escapeStringByte c)) text).andThen <|
  flStrbufAppend (lit "'")

/-- `append_binary_literal`. -/
def appendBinaryLiteral (bytes : Bytes) : Building :=
  (flStrbufAppend (lit "X'")).andThen <|
  (each (fun c => flStrbufAppendLen (hexByte c)) bytes).andThen <|
  flStrbufAppend (lit "'")

/-- The `SQL_C_CHAR` case of `append_param_literal`. -/
def appendCharLiteral (sqlType : SqlType) (text : Bytes) : Building :=
  if sqlType = .typeDate then (appendStringLiteral text).andThen (flStrbufAppend (lit "::DATE"))
  else if sqlType = .typeTime then (appendStringLiteral text).andThen (flStrbufAppend (lit "::TIME"))
  else if sqlType = .typeTimestamp then
    (appendStringLiteral text).andThen (flStrbufAppend (lit "::TIMESTAMP_NTZ"))
  else if sqlType.isNumeric then
    if isNumericLiteral text then appendNumber text
    else fails (flDiagSet "22018" (lit "Parameter bound as a numeric SQL type is not a number"))
  else appendStringLiteral text

/-- The part of `append_param_literal` past its checks, with the indicator as a length. -/
def appendValueLiteral (sqlType : SqlType) (length : ℤ) : CValue → Building
  | .char memory => appendCharLiteral sqlType (bufferText memory length)
  | .wchar => fails (flDiagSet "HYC00"
      (lit "Wide-character parameters are not supported; bind SQL_C_CHAR (UTF-8)"))
  | .slong n => appendNumber (printedNumber (intText n.toInt))
  | .ulong n => flStrbufAppend (printedNumber (natText n.toNat))
  | .sshort n => appendNumber (printedNumber (intText n.toInt))
  | .ushort n => flStrbufAppend (printedNumber (natText n.toNat))
  | .stinyint n => appendNumber (printedNumber (intText n.toInt))
  | .utinyint n => flStrbufAppend (printedNumber (natText n.toNat))
  | .sbigint n => appendNumber (printedNumber (intText n.toInt))
  | .ubigint n => flStrbufAppend (printedNumber (natText n.toNat))
  | .float printed => appendNumber (printedNumber printed)
  | .double printed => appendNumber (printedNumber printed)
  | .bit n => flStrbufAppend (if n ≠ 0 then lit "TRUE" else lit "FALSE")
  | .binary memory => appendBinaryLiteral (if 0 ≤ length then memory.take length.toNat else [])
  | .date year month day =>
      flStrbufAppend (snprintf paramTextSize (lit "'" ++ dateText year month day ++ lit "'::DATE"))
  | .time hour minute second =>
      flStrbufAppend (snprintf paramTextSize (lit "'" ++ timeText hour minute second ++ lit "'::TIME"))
  | .timestamp year month day hour minute second fraction =>
      flStrbufAppend (snprintf paramTextSize (lit "'" ++ dateText year month day ++ lit "T" ++
        timeText hour minute second ++ lit "." ++ natTextPadded 9 fraction.toNat ++
        lit "'::TIMESTAMP_NTZ"))
  | .other cType => fails (flDiagSet "HYC00" (lit "Unsupported parameter C type " ++ intText cType.toInt))

/-- `append_param_literal`. -/
def appendParamLiteral (param : BoundParam) : Building :=
  if !param.bound then fails (flDiagSet "07002" (lit "Statement has an unbound parameter"))
  else
    let indicator := param.strLenOrInd.getD sqlNts
    match param.buffer with
    | none => flStrbufAppend (lit "NULL")
    | some value =>
        if indicator = sqlNullData then flStrbufAppend (lit "NULL")
        else if indicator < 0 ∧ indicator ≠ sqlNts then
          if indicator = sqlDataAtExec ∨ indicator ≤ sqlLenDataAtExecOffset then
            fails (flDiagSet "HYC00" (lit "Data-at-execution parameters are not supported"))
          else if indicator = sqlDefaultParam then
            fails (flDiagSet "HYC00" (lit "SQL_DEFAULT_PARAM is not supported"))
          else
            fails (flDiagSet "HY090" (lit "Invalid string or buffer length " ++ intText indicator))
        else appendValueLiteral param.sqlType indicator value

/-! ## Substitution -/

/-- The loop of `substitute_params`. -/
def substituteParamsFrom : ℕ → List BoundParam → Bytes → Building
  | 0, _, _ => done
  | _ + 1, _, [] => done
  | fuel + 1, params, c :: rest =>
      match flSqlSkip (c :: rest) with
      | some k =>
          (flStrbufAppendLen ((c :: rest).take k)).andThen
            (substituteParamsFrom fuel params ((c :: rest).drop k))
      | none =>
          if c = ch '?' then
            match params with
            | [] => fails (flDiagSet "07002" (lit "More placeholders than bound parameters"))
            | param :: params =>
                (appendParamLiteral param).andThen (substituteParamsFrom fuel params rest)
          else (flStrbufAppendLen [c]).andThen (substituteParamsFrom fuel params rest)

/-- `substitute_params`. -/
def substituteParams (params : List BoundParam) (sql : Bytes) : Alloc (Ended × ℕ) :=
  run (substituteParamsFrom sql.length params sql)

end OnHeap

end FrostlakeOdbc
