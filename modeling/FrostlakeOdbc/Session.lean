import FrostlakeOdbc.FlOdbc
import FrostlakeOdbc.Scanner

/-!
# What a statement leaves on the session (`session.c`)
-/

namespace FrostlakeOdbc

open CString

/-- `WORD_LIMIT` and `WORD_LENGTH`. -/
def wordLimit : ℕ := 16

def wordLength : ℕ := 32

/-- The words that may sit between CREATE/DROP/ALTER and the kind of object being named. -/
def modifiers : List Bytes :=
  [lit "OR", lit "REPLACE", lit "TRANSIENT", lit "TEMPORARY", lit "TEMP", lit "VOLATILE",
    lit "LOCAL", lit "GLOBAL", lit "SECURE", lit "IF", lit "NOT", lit "EXISTS", lit "PUBLIC",
    lit "PRIVATE", lit "ICEBERG", lit "DYNAMIC", lit "HYBRID", lit "EVENT", lit "RECURSIVE",
    lit "MATERIALIZED", lit "EXTERNAL"]

/-- The modifiers that make a created object live and die with the session. -/
def temporary : List Bytes := [lit "TEMPORARY", lit "TEMP", lit "VOLATILE"]

/-- One statement of a request: what is left of the request's text where the statement starts, and
the length of the statement. -/
structure Statement where
  start : Bytes
  length : ℕ

/-- White space between words, comments apart. -/
def isBlank (c : UInt8) : Bool :=
  c = ch ' ' || c = ch '\t' || c = ch '\n' || c = ch '\r' || c = 12 || c = 11

/-- Whether a comment opens at the start of a text. -/
def opensComment : Bytes → Bool
  | c :: d :: _ =>
      (c = ch '-' && d = ch '-') || (c = ch '/' && (d = ch '/' || d = ch '*'))
  | _ => false

/-- The loop of `leading_words`: `limit` more words may be read from the next `n` bytes. -/
def leadingWordsFrom : ℕ → ℕ → Bytes → ℕ → List Bytes
  | 0, _, _, _ => []
  | _ + 1, _, [], _ => []
  | fuel + 1, limit, c :: rest, n =>
      if n = 0 ∨ limit = 0 then []
      else if isBlank c then leadingWordsFrom fuel limit rest (n - 1)
      else if opensComment (c :: rest) then
        match flSqlSkip (c :: rest) with
        | some k => leadingWordsFrom fuel limit ((c :: rest).drop k) (n - k)
        | none => []
      else if !isNameChar c then []
      else
        let word := ((c :: rest).take n).takeWhile isNameChar
        (word.take (wordLength - 1)).map toUpper ::
          leadingWordsFrom fuel (limit - 1) ((c :: rest).drop word.length) (n - word.length)

/-- `leading_words`: the leading words of a statement in upper case, white space and comments
skipped, up to the first thing that is not a word. -/
def leadingWords (s : Statement) : List Bytes :=
  leadingWordsFrom s.start.length wordLimit s.start s.length

/-- `object_kind`: the first word after the verb that is not a modifier, or the empty word. -/
def objectKind (words : List Bytes) : Bytes :=
  ((words.drop 1).find? fun word => !modifiers.contains word).getD []

/-- `touches_session`: whether a statement leaves behind state a fresh session would not have. -/
def touchesSession : List Bytes → Bool
  | [] => false
  | verb :: rest =>
      if verb = lit "USE" || verb = lit "SET" || verb = lit "UNSET" then true
      else if verb = lit "ALTER" then objectKind (verb :: rest) = lit "SESSION"
      else if verb = lit "CREATE" || verb = lit "DROP" then
        let kind := objectKind (verb :: rest)
        if kind = lit "DATABASE" || kind = lit "SCHEMA" then true
        else verb = lit "CREATE" &&
          (rest.takeWhile fun word => modifiers.contains word).any fun word => temporary.contains word
      else false

/-- What a statement does to the transaction of its session. -/
inductive TransactionEffect : Type where
  | opens
  | ends
  | neither
  deriving DecidableEq

/-- `transaction_effect`. -/
def transactionEffect : List Bytes → TransactionEffect
  | [] => .neither
  | verb :: rest =>
      if verb = lit "BEGIN" then
        match rest with
        | [] => .opens
        | word :: _ =>
            if word = lit "TRANSACTION" || word = lit "WORK" || word = lit "NAME" then .opens
            else .neither
      else if verb = lit "START" ∧ rest.head? = some (lit "TRANSACTION") then .opens
      else if verb = lit "COMMIT" || verb = lit "ROLLBACK" then .ends
      else .neither

/-- `note_statement`. -/
def noteStatement (dbc : Dbc) (s : Statement) : Dbc :=
  let words := leadingWords s
  if words = [] then dbc
  else
    let dbc := if touchesSession words then { dbc with sessionDirty := true } else dbc
    match transactionEffect words with
    | .opens => { dbc with inTransaction := true }
    | .ends => { dbc with inTransaction := false }
    | .neither => if !dbc.autocommit then { dbc with inTransaction := true } else dbc

/-- The scan of `fl_session_note`, at `c` with `n` bytes of a statement behind it. -/
def statementsFrom : ℕ → Bytes → ℕ → Bytes → List Statement
  | 0, start, n, _ => [⟨start, n⟩]
  | _ + 1, start, n, [] => [⟨start, n⟩]
  | fuel + 1, start, n, c :: rest =>
      match flSqlSkip (c :: rest) with
      | some k => statementsFrom fuel start (n + k) ((c :: rest).drop k)
      | none =>
          if c = ch ';' then ⟨start, n⟩ :: statementsFrom fuel rest 0 rest
          else statementsFrom fuel start (n + 1) rest

/-- The statements of a request, as `fl_session_note` splits it. -/
def statements (sql : Bytes) : List Statement := statementsFrom sql.length sql 0 sql

/-- `fl_session_note`. The scan does not read the connection, so the statements are listed first. -/
def flSessionNote (dbc : Dbc) (sql : Bytes) : Dbc := (statements sql).foldl noteStatement dbc

end FrostlakeOdbc
