import FrostlakeOdbc.Http
import FrostlakeOdbc.Lib.Layer
import FrostlakeOdbc.Lib.PartialIo
import FrostlakeOdbc.Proto

/-!
# The HTTP client over its sockets (`http.c`)

The system calls one request makes, against a kernel that may take part of what is sent, hand over
any piece of what has arrived, and refuse any call. The allocations are taken to succeed.
-/

namespace FrostlakeOdbc

open CString Exchange

/-! ## System calls -/

/-- An address `getaddrinfo` finds. -/
structure Address where
  family : ℤ
  socktype : ℤ
  protocol : ℤ
  addr : Bytes
  deriving DecidableEq

/-- The options `connect_to` sets. -/
inductive SocketOption : Type where
  | rcvtimeo
  | sndtimeo
  deriving DecidableEq

inductive SysCall : Type where
  | getaddrinfo (host port : Bytes)
  | freeaddrinfo
  | socket (family socktype protocol : ℤ)
  | setsockopt (fd : ℤ) (option : SocketOption) (seconds : ℤ)
  | connect (fd : ℤ) (addr : Bytes)
  | send (fd : ℤ) (data : Bytes)
  /-- Into a buffer of `capacity` bytes, from `offset` on and at most `size` bytes. -/
  | recv (fd : ℤ) (capacity offset size : ℕ)
  | close (fd : ℤ)
  /-- `strerror(errno)`. -/
  | strerror
  deriving DecidableEq

/-- What a system call answers: the value it returns, the bytes it writes to memory or points to (the
text of an error among them), and the addresses it lists. -/
structure SysAnswer where
  result : ℤ
  data : Bytes := []
  addresses : List Address := []
  deriving DecidableEq

/-- A function of the driver as the system calls it makes. -/
abbrev Sys := Client SysCall SysAnswer

/-! ## Connecting -/

/-- `http_error`. -/
def httpError (what : Bytes) (detail : Option Bytes) : Bytes :=
  match detail with
  | some detail => what ++ lit ": " ++ detail
  | none => what

/-- The timeouts of a new socket; without one it waits for ever. -/
def setTimeouts (fd timeoutSeconds : ℤ) : Sys Unit :=
  if 0 < timeoutSeconds then do
    let _ ← Client.call (SysCall.setsockopt fd .rcvtimeo timeoutSeconds)
    let _ ← Client.call (SysCall.setsockopt fd .sndtimeo timeoutSeconds)
    return ()
  else return ()

/-- The loop of `connect_to`: the first address that can be connected to. -/
def connectFirst (timeoutSeconds : ℤ) : List Address → Sys (Option ℤ)
  | [] => return none
  | address :: rest => do
      let made ← Client.call (.socket address.family address.socktype address.protocol)
      if made.result < 0 then connectFirst timeoutSeconds rest
      else do
        let fd := made.result
        setTimeouts fd timeoutSeconds
        let connected ← Client.call (.connect fd address.addr)
        if connected.result = 0 then return some fd
        else do
          let _ ← Client.call (.close fd)
          connectFirst timeoutSeconds rest

/-- `connect_to`: the descriptor, or the error. -/
def connectTo (host : Bytes) (port timeoutSeconds : ℤ) : Sys (Except Bytes ℤ) := do
  let found ← Client.call (.getaddrinfo host (snprintf 16 (intText port)))
  if found.result ≠ 0 then
    return .error (httpError (lit "cannot resolve host") (some found.data))
  else do
    let fd ← connectFirst timeoutSeconds found.addresses
    let _ ← Client.call .freeaddrinfo
    match fd with
    | none => do
        let error ← Client.call .strerror
        return .error (httpError (lit "cannot connect") (some error.data))
    | some fd => return .ok fd

/-! ## Sending and reading -/

/-- `send_all`: whether all of it was sent. -/
def sendAll (fd : ℤ) (data : Bytes) : Sys Bool :=
  writeAll (.send fd) SysAnswer.result data.length data

/-- What a `recv` hands over, or that it failed. -/
def SysAnswer.received (r : SysAnswer) : Option Bytes :=
  if r.result < 0 then none else some (r.data.take r.result.toNat)

/-- The bytes `read_all` asks for at a time. -/
def recvSize : ℕ := 4096

/-- The buffer `read_all` starts with. -/
def firstCapacity : ℕ := 8192

/-- `read_all`, up to `fuel` calls of `recv`. -/
def readToEnd (fuel : ℕ) (fd : ℤ) : Sys (Reading UInt8) :=
  readAll (fun capacity length => .recv fd capacity length recvSize) SysAnswer.received recvSize fuel
    firstCapacity []

/-! ## One request -/

/-- The head of a request as it is printed. -/
def requestHead (host : Bytes) (port : ℤ) (method path : Bytes) (bodyLength : ℕ) : Bytes :=
  method ++ lit " " ++ path ++ lit " HTTP/1.1\r\nHost: " ++ host ++ lit ":" ++ intText port ++
    lit "\r\nContent-Type: application/json\r\nContent-Length: " ++ natText bodyLength ++
    lit "\r\nConnection: close\r\n\r\n"

/-- `head_capacity`. -/
def headCapacity (host method path : Bytes) : ℕ := method.length + path.length + host.length + 256

/-- The part of `http_request` on an open descriptor: the head and then the body. -/
def sendRequest (fd : ℤ) (head body : Bytes) : Sys Bool := do
  let sent ← sendAll fd head
  if sent && 0 < body.length then sendAll fd body else return sent

/-- A failure of `http_request` with what `errno` says. -/
def failWith (what : String) : Sys (Option HttpOutcome) := do
  let error ← Client.call .strerror
  return some (.failed (httpError (lit what) (some error.data)))

/-- The part of `http_request` that reads the response. -/
def receiveResponse (fuel : ℕ) (fd : ℤ) : Sys (Option HttpOutcome) := do
  let raw ← readToEnd fuel fd
  match raw with
  | .unfinished => return none
  | .failed => do
      let _ ← Client.call (.close fd)
      failWith "cannot read response"
  | .whole raw => do
      let _ ← Client.call (.close fd)
      return some (readResponse raw)

/-- `http_request`, up to `fuel` calls of `recv`; `none` where the response has not come to its end
by then. The strings are C strings. -/
def httpRequest (fuel : ℕ) (host : Bytes) (port : ℤ) (method path : Bytes) (body : Option Bytes)
    (timeoutSeconds : ℤ) : Sys (Option HttpOutcome) := do
  let opened ← connectTo host port timeoutSeconds
  match opened with
  | .error message => return some (.failed message)
  | .ok fd => do
      let body := body.getD []
      let head := snprintf (headCapacity host method path)
        (requestHead host port method path body.length)
      let sent ← sendRequest fd head body
      if !sent then do
        let _ ← Client.call (.close fd)
        failWith "cannot send request"
      else receiveResponse fuel fd

/-- `fl_http_post`. -/
def flHttpPost (fuel : ℕ) (host : Bytes) (port : ℤ) (path body : Bytes) (timeoutSeconds : ℤ) :
    Sys (Option HttpOutcome) :=
  httpRequest fuel host port (lit "POST") path (some body) timeoutSeconds

/-- `fl_http_get`. -/
def flHttpGet (fuel : ℕ) (host : Bytes) (port : ℤ) (path : Bytes) (timeoutSeconds : ℤ) :
    Sys (Option HttpOutcome) :=
  httpRequest fuel host port (lit "GET") path none timeoutSeconds

/-- `fl_http_delete`. -/
def flHttpDelete (fuel : ℕ) (host : Bytes) (port : ℤ) (path : Bytes) (timeoutSeconds : ℤ) :
    Sys (Option HttpOutcome) :=
  httpRequest fuel host port (lit "DELETE") path none timeoutSeconds

/-! ## The requests of the driver -/

/-- What a caller has of an outcome; nothing is known after a fault. -/
def HttpOutcome.reply : HttpOutcome → Option HttpReply
  | .failed message => some (.failed message)
  | .fault => none
  | .answered status body => some (.answered status body)

/-- A request as the function of `http.c` that carries it out. -/
def Request.sysCalls (fuel : ℕ) : Request → Sys (Option HttpOutcome)
  | .post p => flHttpPost fuel (p.dbc.host.getD []) p.dbc.port (lit "/api/execute") (cstr p.body)
      p.dbc.requestTimeout
  | .get dbc path timeout => flHttpGet fuel (dbc.host.getD []) dbc.port path timeout
  | .delete dbc path timeout => flHttpDelete fuel (dbc.host.getD []) dbc.port path timeout

/-- A request carried out; `none` where it comes to no answer. -/
def Request.carryOut (fuel : ℕ) (q : Request) : Sys (Option HttpReply) :=
  (fun outcome => outcome.bind HttpOutcome.reply) <$> q.sysCalls fuel

/-- A call of the driver as the system calls it makes. -/
def overSockets {α : Type} (fuel : ℕ) (p : Call α) : Sys (Option α) := p.carriedBy (Request.carryOut fuel)

end FrostlakeOdbc
