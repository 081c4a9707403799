import FrostlakeOdbc.Lib.CString

/-!
# Reading an HTTP response (`http.c`)

What `http_request` does with the bytes it received up to the end of the stream.
-/

namespace FrostlakeOdbc

open CString

/-- What `http_request` makes of a response. `fault` stands for an access outside the buffer, after
which nothing is known. -/
inductive HttpOutcome : Type where
  | failed (message : Bytes)
  | fault
  | answered (status : ℤ) (body : Bytes)
  deriving DecidableEq

def isHeaderBlank (c : UInt8) : Bool := c = ch ' ' || c = ch '\t'

/-- The loop of `find_header`, at the line that starts where `line` does. -/
def findHeaderFrom (name : Bytes) : ℕ → Bytes → Option Bytes
  | 0, _ => none
  | fuel + 1, line =>
      if line = [] then none
      else
        let next := find (lit "\r\n") line
        let lineLength := next.getD line.length
        if name.length + 1 < lineLength && strncaseeq line name name.length &&
            (line)[name.length]? = some (ch ':') then
          some ((line.drop (name.length + 1)).dropWhile isHeaderBlank)
        else
          match next with
          | some n => findHeaderFrom name fuel (line.drop (n + 2))
          | none => none

/-- `find_header`: the header block from where the value of a header starts. -/
def findHeader (headers name : Bytes) : Option Bytes :=
  findHeaderFrom name (headers.length + 1) headers

/-- What `decode_chunked` answers. -/
inductive Chunked : Type where
  | malformed
  | fault
  | decoded (body : Bytes)
  deriving DecidableEq

/-- The loop of `decode_chunked`. A chunk is moved to where the body has been read already, so what
is decoded (`out`) and what is left to read (`rest`) are kept apart; `length` is the length of the
whole body. -/
def decodeChunkedFrom (length : ℕ) : ℕ → Bytes → Bytes → Chunked
  | 0, out, _ => .decoded out
  | fuel + 1, out, rest =>
      if rest = [] then .decoded out
      else
        match find (lit "\r\n") rest with
        | none => .malformed
        | some lineEnd =>
            let chunk := strtol 16 rest
            let rest := rest.drop (lineEnd + 2)
            if chunk = 0 then .decoded out
            else if chunk < 0 then
              -- as a `size_t` the sum wraps around, and the move runs off the buffer
              if 0 ≤ (length - rest.length : ℤ) + chunk then .fault else .malformed
            else if (rest.length : ℤ) < chunk then .malformed
            else
              let out := out ++ rest.take chunk.toNat
              let rest := rest.drop chunk.toNat
              decodeChunkedFrom length fuel out
                (if (lit "\r\n").isPrefixOf rest then rest.drop 2 else rest)

/-- `decode_chunked`. -/
def decodeChunked (body : Bytes) : Chunked := decodeChunkedFrom body.length body.length [] body

/-- What follows the header block in `http_request`: the body is decoded from its chunks, or cut to the
length the headers declare. -/
def readBody (status : ℤ) (headers payload : Bytes) : HttpOutcome :=
  let chunked :=
    match findHeader headers (lit "Transfer-Encoding") with
    | some value => strncaseeq value (lit "chunked") 7
    | none => false
  if chunked then
    match decodeChunked payload with
    | .malformed => .failed (lit "malformed chunked response")
    | .fault => .fault
    | .decoded body => .answered status body
  else
    match findHeader headers (lit "Content-Length") with
    | some value =>
        let declared := strtol 10 value
        if 0 ≤ declared ∧ declared ≤ payload.length then
          .answered status (payload.take declared.toNat)
        else .answered status payload
    | none => .answered status payload

/-- The part of `http_request` after `read_all`: the status and the body of a response. -/
def readResponse (raw : Bytes) : HttpOutcome :=
  if raw.take 7 ≠ lit "HTTP/1." ∨ raw.length < 12 then .failed (lit "malformed HTTP response")
  else
    match find (lit "\r\n\r\n") raw with
    | none => .failed (lit "malformed HTTP response: no header terminator")
    | some headerEnd =>
        -- the first byte of the terminator is overwritten with a NUL
        readBody (atoi (raw.drop 9)) (cstr (raw.take headerEnd)) (raw.drop (headerEnd + 4))

end FrostlakeOdbc
