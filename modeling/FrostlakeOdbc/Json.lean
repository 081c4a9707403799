import FrostlakeOdbc.Lib.JsonText

/-!
# The driver's JSON (`json.c`)

The writer escapes a text into a string literal; the parser is a recursive descent over the bytes
of a response. Every parsing function takes what is left of the text and answers what it read with
the rest, or `none` where the source returns `NULL`. The source's depth counter is the parameter
of `parseValue`, how many more arrays and objects may open; its loops take a step budget that the
length of the text always covers.

The allocations are taken to succeed.
-/

namespace FrostlakeOdbc

open CString JsonText

/-- `FL_JSON_MAX_DEPTH`. -/
def jsonMaxDepth : ℕ := 64

/-! ## Writing -/

def hexDigitLower (n : ℕ) : UInt8 := UInt8.ofNat (if n < 10 then 48 + n else 87 + n)

/-- The escape of one byte. -/
def escapeByte (c : UInt8) : Bytes :=
  if c = ch '"' then [ch '\\', ch '"']
  else if c = ch '\\' then [ch '\\', ch '\\']
  else if c = 8 then [ch '\\', ch 'b']
  else if c = 12 then [ch '\\', ch 'f']
  else if c = ch '\n' then [ch '\\', ch 'n']
  else if c = ch '\r' then [ch '\\', ch 'r']
  else if c = ch '\t' then [ch '\\', ch 't']
  else if c < 0x20 then
    [ch '\\', ch 'u', ch '0', ch '0', hexDigitLower (c.toNat / 16), hexDigitLower (c.toNat % 16)]
  else [c]

/-- `fl_strbuf_append_json_string`: the text up to its NUL, quoted and escaped. -/
def flStrbufAppendJsonString (buf text : Bytes) : Bytes :=
  buf ++ [ch '"'] ++ (cstr text).flatMap escapeByte ++ [ch '"']

/-! ## Strings -/

def skipWs (s : Bytes) : Bytes := s.dropWhile isWs

/-- The bytes that encode a code point as UTF-8. -/
def appendUtf8 (cp : ℕ) : Bytes :=
  if cp < 0x80 then [UInt8.ofNat cp]
  else if cp < 0x800 then
    [UInt8.ofNat (0xC0 ||| (cp >>> 6)), UInt8.ofNat (0x80 ||| (cp &&& 0x3F))]
  else if cp < 0x10000 then
    [UInt8.ofNat (0xE0 ||| (cp >>> 12)), UInt8.ofNat (0x80 ||| ((cp >>> 6) &&& 0x3F)),
      UInt8.ofNat (0x80 ||| (cp &&& 0x3F))]
  else
    [UInt8.ofNat (0xF0 ||| (cp >>> 18)), UInt8.ofNat (0x80 ||| ((cp >>> 12) &&& 0x3F)),
      UInt8.ofNat (0x80 ||| ((cp >>> 6) &&& 0x3F)), UInt8.ofNat (0x80 ||| (cp &&& 0x3F))]

/-- The value of one digit of `parse_hex4`. -/
def hexDigit (c : UInt8) : Option ℕ :=
  if ch '0' ≤ c ∧ c ≤ ch '9' then some (c.toNat - 48)
  else if ch 'a' ≤ c ∧ c ≤ ch 'f' then some (c.toNat - 97 + 10)
  else if ch 'A' ≤ c ∧ c ≤ ch 'F' then some (c.toNat - 65 + 10)
  else none

/-- `parse_hex4`. -/
def parseHex4 : Bytes → Option (ℕ × Bytes)
  | a :: b :: c :: d :: rest =>
      match hexDigit a, hexDigit b, hexDigit c, hexDigit d with
      | some a, some b, some c, some d => some (((a * 16 + b) * 16 + c) * 16 + d, rest)
      | _, _, _, _ => none
  | _ => none

/-- What a backslash and `esc` stand for, `\u` apart. -/
def unescape (esc : UInt8) : Option UInt8 :=
  if esc = ch '"' then some (ch '"')
  else if esc = ch '\\' then some (ch '\\')
  else if esc = ch '/' then some (ch '/')
  else if esc = ch 'b' then some 8
  else if esc = ch 'f' then some 12
  else if esc = ch 'n' then some (ch '\n')
  else if esc = ch 'r' then some (ch '\r')
  else if esc = ch 't' then some (ch '\t')
  else none

/-- Whether `cp` is a high surrogate with room for a `\u` escape, and one, after it. -/
def opensPair (cp : ℕ) (rest : Bytes) : Bool :=
  0xD800 ≤ cp && cp ≤ 0xDBFF && 6 ≤ rest.length && rest.take 2 = [ch '\\', ch 'u']

/-- The code point of two surrogates. -/
@[irreducible] def combine (cp low : ℕ) : ℕ := 0x10000 + ((cp - 0xD800) <<< 10) + low - 0xDC00

/-- The `\u` case of `parse_string_body`, after the `u`: a high surrogate takes the escape after it
as its other half, whatever that escape says. -/
def parseUnicode (s : Bytes) : Option (Bytes × Bytes) :=
  (parseHex4 s).bind fun (cp, rest) =>
    if opensPair cp rest then
      (parseHex4 (rest.drop 2)).map fun (low, rest) => (appendUtf8 (combine cp low), rest)
    else some (appendUtf8 cp, rest)

/-- One turn of the loop of `parse_string_body`, at the byte `c`. -/
def parseStringItem (c : UInt8) (rest : Bytes) : Option (Bytes × Bytes) :=
  if c = ch '\\' then
    match rest with
    | [] => none
    | esc :: rest =>
        if esc = ch 'u' then parseUnicode rest
        else (unescape esc).map fun b => ([b], rest)
  else some ([c], rest)

def parseStringLoop : ℕ → Bytes → Option (Bytes × Bytes)
  | 0, _ => none
  | _ + 1, [] => none
  | fuel + 1, c :: rest =>
      if c = ch '"' then some ([], rest)
      else
        (parseStringItem c rest).bind fun (decoded, rest) =>
          (parseStringLoop fuel rest).map fun (text, rest) => (decoded ++ text, rest)

/-- `parse_string_body`: the text of a string, after its opening quote. -/
def parseStringBody (s : Bytes) : Option (Bytes × Bytes) := parseStringLoop s.length s

/-! ## Values -/

/-- `parse_string`, at the opening quote. -/
def parseString (s : Bytes) : Option (Value × Bytes) :=
  (parseStringBody (s.drop 1)).map fun (text, rest) => (.string text, rest)

/-- `parse_number`: every byte a number may be made of, in any order. -/
def parseNumber (s : Bytes) : Option (Value × Bytes) :=
  match s.takeWhile isNumberByte with
  | [] => none
  | lexeme => some (.number lexeme, s.dropWhile isNumberByte)

def parseLiteral (word : Bytes) (node : Value) (s : Bytes) : Option (Value × Bytes) :=
  if word.isPrefixOf s then some (node, s.drop word.length) else none

/-- A function that parses one value. -/
abbrev ValueParser := Bytes → Option (Value × Bytes)

/-- The loop of `parse_array` and `parse_object`: items with commas between them, up to the bracket
or brace that closes them. -/
def parseSeparated {β : Type} (item : Bytes → Option (β × Bytes)) (close : UInt8) :
    ℕ → Bytes → Option (List β × Bytes)
  | 0, _ => none
  | fuel + 1, s =>
      (item s).bind fun (child, rest) =>
        match skipWs rest with
        | c :: rest =>
            if c = ch ',' then
              (parseSeparated item close fuel rest).map fun (items, rest) => (child :: items, rest)
            else if c = close then some ([child], rest)
            else none
        | [] => none

/-- The items after an opening bracket or brace, of which there may be none. -/
def parseList {β : Type} (item : Bytes → Option (β × Bytes)) (close : UInt8) (s : Bytes) :
    Option (List β × Bytes) :=
  match skipWs s with
  | c :: rest =>
      if c = close then some ([], rest)
      else parseSeparated item close (c :: rest).length (c :: rest)
  | [] => none

/-- `parse_array`, at the bracket. -/
def parseArray (parseValue : ValueParser) (s : Bytes) : Option (Value × Bytes) :=
  (parseList parseValue (ch ']') (s.drop 1)).map fun (items, rest) => (.array items, rest)

/-- The key of a member, with the colon after it. -/
def parseKey (s : Bytes) : Option (Bytes × Bytes) :=
  match skipWs s with
  | c :: rest =>
      if c = ch '"' then
        (parseStringBody rest).bind fun (key, rest) =>
          match skipWs rest with
          | c :: rest => if c = ch ':' then some (key, rest) else none
          | [] => none
      else none
  | [] => none

/-- One member in the loop of `parse_object`. -/
def parseMember (parseValue : ValueParser) (s : Bytes) : Option ((Bytes × Value) × Bytes) :=
  (parseKey s).bind fun (key, rest) =>
    (parseValue rest).map fun (child, rest) => ((key, child), rest)

/-- `parse_object`, at the brace. -/
def parseObject (parseValue : ValueParser) (s : Bytes) : Option (Value × Bytes) :=
  (parseList (parseMember parseValue) (ch '\x7d') (s.drop 1)).map
    fun (members, rest) => (.object members, rest)

/-- The parser `parse_value` calls at a first byte `c`. `nested` parses the values inside an array
or an object, and is `none` at the depth limit. -/
def parserAt (nested : Option ValueParser) (c : UInt8) : ValueParser :=
  if c = ch '\x7b' then fun s => nested.bind fun parseValue => parseObject parseValue s
  else if c = ch '[' then fun s => nested.bind fun parseValue => parseArray parseValue s
  else if c = ch '"' then parseString
  else if c = ch 't' then parseLiteral (lit "true") (.bool true)
  else if c = ch 'f' then parseLiteral (lit "false") (.bool false)
  else if c = ch 'n' then parseLiteral (lit "null") .null
  else parseNumber

def parseAt (nested : Option ValueParser) : ValueParser
  | [] => none
  | c :: rest => parserAt nested c (c :: rest)

/-- `parse_value`, with `depth` more levels allowed. -/
def parseValue : ℕ → ValueParser
  | 0, s => parseAt none (skipWs s)
  | depth + 1, s => parseAt (some (parseValue depth)) (skipWs s)

/-- `fl_json_parse`. -/
def flJsonParse (input : Bytes) : Option Value :=
  (parseValue jsonMaxDepth input).bind fun (root, rest) =>
    if skipWs rest = [] then some root else none

/-! ## Lookups

A `NULL` node is `none`. Keys and texts are compared and handed on as C strings. -/

/-- `fl_json_get`. -/
def flJsonGet (object : Option Value) (key : Bytes) : Option Value :=
  match object with
  | some (.object members) => (members.find? fun m => cstr m.1 = key).map (·.2)
  | _ => none

/-- `fl_json_get_string`. -/
def flJsonGetString (object : Option Value) (key : Bytes) : Option Bytes :=
  match flJsonGet object key with
  | some (.string text) => some (cstr text)
  | _ => none

/-- `fl_json_at`. -/
def flJsonAt (array : Option Value) (index : ℕ) : Option Value :=
  match array with
  | some (.array items) => items[index]?
  | _ => none

/-- `fl_json_get_bool`. -/
def flJsonGetBool (object : Option Value) (key : Bytes) (fallback : Bool) : Bool :=
  match flJsonGet object key with
  | some (.bool b) => b
  | _ => fallback

/-- `fl_json_get_long`. -/
def flJsonGetLong (object : Option Value) (key : Bytes) (fallback : ℤ) : ℤ :=
  match flJsonGet object key with
  | some (.number lexeme) => strtol 10 lexeme
  | _ => fallback

end FrostlakeOdbc
