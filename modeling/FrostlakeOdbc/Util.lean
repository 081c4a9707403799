import FrostlakeOdbc.FlOdbc

/-!
# Identifiers and types (`util.c`)
-/

namespace FrostlakeOdbc

open CString

/-! ## Identifiers -/

/-- `ident_is_bare`: a name that may stand in SQL without quotes. -/
def identIsBare : Bytes → Bool
  | [] => false
  | c :: rest =>
      (isUpper c || isLower c || c = ch '_') &&
        rest.all fun c => isUpper c || isLower c || isDigit c || c = ch '_' || c = ch '$'

/-- Whether every quote in the inside of a name is one of a pair. -/
def quotesPaired : Bytes → Bool
  | [] => true
  | [c] => c ≠ ch '"'
  | c :: d :: rest =>
      if c ≠ ch '"' then quotesPaired (d :: rest) else d = ch '"' && quotesPaired rest

/-- `ident_is_quoted`: a name in quotes whose inner quotes are doubled. -/
def identIsQuoted (name : Bytes) : Bool :=
  2 ≤ name.length && name.head? = some (ch '"') && name.getLast? = some (ch '"') &&
    quotesPaired (name.drop 1).dropLast

/-- A name as `fl_strbuf_append_ident` spells it: as it is if it is an identifier, and else in quotes,
its own doubled. -/
def ident (name : Bytes) : Bytes :=
  if identIsQuoted name || identIsBare name then name
  else [ch '"'] ++ (name.flatMap fun c => if c = ch '"' then [ch '"', c] else [c]) ++ [ch '"']

/-- `fl_strbuf_append_ident`. An empty name is refused. -/
def flStrbufAppendIdent (buf name : Bytes) : Option Bytes :=
  if name = [] then none else some (buf ++ ident name)

/-! ## Types -/

/-- `fl_sql_type_for`: the ODBC type of an engine type name, the more specific name first. -/
def flSqlTypeFor (typeName : Option Bytes) (scale : ℤ) : SqlType :=
  match typeName with
  | none => .varchar
  | some name =>
      let has (pat : String) : Bool := strcasestr name (lit pat)
      if has "TIMESTAMP" || has "DATETIME" then .typeTimestamp
      else if has "DATE" then .typeDate
      else if has "TIME" then .typeTime
      else if has "INT" then .bigint
      else if has "DECIMAL" || has "NUMBER" || has "NUMERIC" then
        if scale = 0 then .bigint else .decimal
      else if has "DOUBLE" || has "REAL" || has "FLOAT" then .double
      else if strcaseeq name (lit "BOOL") || has "BOOLEAN" then .bit
      else if has "BINARY" || has "BYTES" then .varbinary
      else .varchar

/-- The code of an ODBC type. -/
def SqlType.code : SqlType → ℤ
  | .numeric => 2
  | .decimal => 3
  | .integer => 4
  | .smallint => 5
  | .float => 6
  | .real => 7
  | .double => 8
  | .varchar => 12
  | .typeDate => 91
  | .typeTime => 92
  | .typeTimestamp => 93
  | .varbinary => -3
  | .bigint => -5
  | .tinyint => -6
  | .bit => -7
  | .other code => code

/-- The subcode of a datetime type: `SQL_CODE_DATE`, `SQL_CODE_TIME` or `SQL_CODE_TIMESTAMP`. -/
def SqlType.datetimeSub : SqlType → Option ℤ
  | .typeDate => some 1
  | .typeTime => some 2
  | .typeTimestamp => some 3
  | _ => none

/-- `fl_type_display_size`: the column size and the decimal digits of a column. -/
def flTypeDisplaySize (col : Column) : ℤ × ℤ :=
  match col.sqlType with
  | .bigint => (if 0 < col.precision then col.precision else 19, 0)
  | .decimal => (if 0 < col.precision then col.precision else 38, col.scale.bmod (2 ^ 16))
  | .integer => (10, 0)
  | .smallint => (5, 0)
  | .tinyint => (3, 0)
  | .double => (15, 0)
  | .bit => (1, 0)
  | .typeDate => (10, 0)
  | .typeTime => (8, 0)
  | .typeTimestamp => (29, 3)
  | .varbinary => (if 0 < col.length then col.length else 8388608, 0)
  | _ => (if 0 < col.length then col.length else 16777216, 0)

end FrostlakeOdbc
