import FrostlakeOdbc.Lib.CString
import FrostlakeOdbc.Lib.Scan

/-!
# The SQL scanner (`skip_non_placeholder` of `execute.c`)

A pointer into a text is the suffix that starts there, and a pointer past a construct is the number
of bytes the construct takes.
-/

namespace FrostlakeOdbc

open CString

/-- A character a name may start with. -/
def isNameStart (c : UInt8) : Bool := isUpper c || isLower c || c = ch '_'

/-- A character a name may go on with. -/
def isNameChar (c : UInt8) : Bool := isUpper c || isLower c || isDigit c || c = ch '_' || c = ch '$'

/-- The length of a single-quoted string behind its opening quote. -/
def stringLength : Bytes → ℕ
  | [] => 0
  | [_] => 1
  | c :: d :: rest =>
      if c = ch '\\' then 2 + stringLength rest
      else if c = ch '\'' then if d ≠ ch '\'' then 1 else 2 + stringLength rest
      else 1 + stringLength (d :: rest)

/-- The length of a quoted identifier behind its opening quote. -/
def quotedLength : Bytes → ℕ
  | [] => 0
  | [_] => 1
  | c :: d :: rest =>
      if c = ch '"' then if d ≠ ch '"' then 1 else 2 + quotedLength rest
      else 1 + quotedLength (d :: rest)

/-- The length of a line comment behind its two opening characters. -/
def lineCommentLength (s : Bytes) : ℕ :=
  let body := s.takeWhile fun c => c ≠ ch '\r' && c ≠ ch '\n'
  if body.length < s.length then body.length + 1 else body.length

/-- The length of a construct that `close` closes, behind its two opening characters. -/
def closedLength (close s : Bytes) : ℕ :=
  match find close s with
  | some n => n + 2
  | none => s.length

/-- `skip_non_placeholder` and `fl_sql_skip`: the length of the name, literal, quoted identifier,
comment or `$$` body that opens at the start of a text. -/
def flSqlSkip : Bytes → Option ℕ
  | [] => none
  | c :: rest =>
      if isNameStart c then some (1 + (rest.takeWhile isNameChar).length)
      else if c = ch '\'' then some (1 + stringLength rest)
      else if c = ch '"' then some (1 + quotedLength rest)
      else if (c = ch '-' ∧ rest.head? = some (ch '-')) ∨
          (c = ch '/' ∧ rest.head? = some (ch '/')) then
        some (2 + lineCommentLength (rest.drop 1))
      else if c = ch '/' ∧ rest.head? = some (ch '*') then
        some (2 + closedLength (lit "*/") (rest.drop 1))
      else if c = ch '$' ∧ rest.head? = some (ch '$') then
        some (2 + closedLength (lit "$$") (rest.drop 1))
      else none

/-- What `fl_sql_skip` steps over is at least one byte. -/
theorem flSqlSkip_pos {s : Bytes} {n : ℕ} (h : flSqlSkip s = some n) : 0 < n := by
  cases s with
  | nil => cases h
  | cons c rest =>
    simp only [flSqlSkip] at h
    split_ifs at h <;> cases h <;> omega

end FrostlakeOdbc
