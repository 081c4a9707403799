import FrostlakeOdbc.ConnectRule
import FrostlakeOdbc.Lib.HttpRequest
import FrostlakeOdbc.Lib.Scanf
import FrostlakeOdbc.SessionHistory
import FrostlakeOdbc.TransportProof

/-!
# What a server reads of a request

The bytes `http_request` sends are one HTTP message with the method, the target and the body it was
called with (`requestText_eq`). Every request of a connection to a host that is one line is such a
message (`holds_connectAndRun_sendable`), so over the sockets a server reads from the bytes of each
request either that request or nothing (`overSockets_reads`). The path of a release names exactly the
session the connection held (`release_names`).
-/

namespace FrostlakeOdbc

open CString Exchange Client HttpText

/-! ## The message -/

/-- What the caller of `http_request` keeps to. -/
structure Callable (host : Bytes) (port : ℤ) (method path : Bytes) : Prop where
  host : ∀ c ∈ host, isLineByte c = true
  port : port.natAbs < 2 ^ 31
  method : Word method
  path : Word path

theorem lineBytes_append {a b : Bytes} (ha : ∀ c ∈ a, isLineByte c = true)
    (hb : ∀ c ∈ b, isLineByte c = true) : ∀ c ∈ a ++ b, isLineByte c = true := fun c hc =>
  (List.mem_append.1 hc).elim (ha c) (hb c)

theorem lineBytes_natText (n : ℕ) : ∀ c ∈ natText n, isLineByte c = true := fun _ hc =>
  isLineByte_of_isDigit (isDigit_of_mem_natText hc)

theorem lineBytes_intText (n : ℤ) : ∀ c ∈ intText n, isLineByte c = true := by
  unfold intText
  split
  · intro c hc
    rcases List.mem_cons.1 hc with rfl | hc
    · decide
    · exact lineBytes_natText _ c hc
  · exact lineBytes_natText _

/-- A field whose name is a word of the driver. -/
def headField (name value : Bytes) (hname : name ≠ [] ∧ ∀ c ∈ name, isLineByte c = true ∧ c ≠ ch ':')
    (hvalue : ∀ c ∈ value, isLineByte c = true) : Field :=
  ⟨name, value, hname.1, hname.2, hvalue⟩

section

variable {host : Bytes} {port : ℤ} {method path body : Bytes}

theorem fieldName (name : Bytes)
    (h : (name.all fun c => isLineByte c && c ≠ ch ':') = true) (hne : name ≠ []) :
    name ≠ [] ∧ ∀ c ∈ name, isLineByte c = true ∧ c ≠ ch ':' := by
  refine ⟨hne, fun c hc => ?_⟩
  have hbyte := Bool.and_eq_true_iff.1 (List.all_eq_true.1 h c hc)
  exact ⟨hbyte.1, of_decide_eq_true hbyte.2⟩

/-- The fields of a request. -/
def requestFields (port : ℤ) (n : ℕ) (hhost : ∀ c ∈ host, isLineByte c = true) : List Field :=
  [headField (lit "Host") (lit " " ++ host ++ lit ":" ++ intText port)
      (fieldName _ (by decide) (by decide))
      (lineBytes_append (lineBytes_append (lineBytes_append (forall_mem_of_all (by decide)) hhost)
        (forall_mem_of_all (by decide))) (lineBytes_intText port)),
    headField (lit "Content-Type") (lit " application/json") (fieldName _ (by decide) (by decide))
      (forall_mem_of_all (by decide)),
    headField (lit "Content-Length") (lit " " ++ natText n) (fieldName _ (by decide) (by decide))
      (lineBytes_append (forall_mem_of_all (by decide)) (lineBytes_natText n)),
    headField (lit "Connection") (lit " close") (fieldName _ (by decide) (by decide))
      (forall_mem_of_all (by decide))]

theorem declaredLength_requestFields (port : ℤ) (n : ℕ) (hhost : ∀ c ∈ host, isLineByte c = true) :
    declaredLength ((requestFields port n hhost).map fun f => (f.name, f.value)) = some n := by
  have hhead : strcaseeq (lit "Host") (lit "Content-Length") = false := by decide
  have htype : strcaseeq (lit "Content-Type") (lit "Content-Length") = false := by decide
  have hlength : strcaseeq (lit "Content-Length") (lit "Content-Length") = true := by decide
  have hfind : (((requestFields port n hhost).map fun f => (f.name, f.value)).find? fun f =>
      strcaseeq f.1 (lit "Content-Length")) = some (lit "Content-Length", lit " " ++ natText n) := by
    simp [requestFields, headField, hhead, htype, hlength]
  have hdeclared := declaredLength_of_find hfind rfl (forall_mem_of_all (by decide)) (natText_ne_nil n)
    fun c hc => isDigit_of_mem_natText hc
  rw [hdeclared, leadingValue_natText]

/-- The request as a message. -/
def requestMessage (h : Callable host port method path) (body : Bytes) : Message where
  method := method
  target := path
  fields := requestFields port body.length h.host
  body := body
  method_word := h.method
  target_word := h.path
  declared := declaredLength_requestFields port body.length h.host

theorem requestHead_eq (h : Callable host port method path) (body : Bytes) :
    requestHead host port method path body.length =
      (requestMessage h body).head ++ (crlf ++ crlf) := by
  have hhost : lit " HTTP/1.1\r\nHost: " = lit " HTTP/1.1" ++ (crlf ++ (lit "Host" ++ ch ':' :: lit " ")) := by
    decide
  have htype : lit "\r\nContent-Type: application/json\r\nContent-Length: " =
      crlf ++ (lit "Content-Type" ++ ch ':' :: (lit " application/json" ++
        (crlf ++ (lit "Content-Length" ++ ch ':' :: lit " ")))) := by decide
  have hconnection : lit "\r\nConnection: close\r\n\r\n" =
      crlf ++ (lit "Connection" ++ ch ':' :: (lit " close" ++ (crlf ++ crlf))) := by decide
  have hblank : lit " " = [ch ' '] := by decide
  rw [requestHead, hhost, htype, hconnection]
  simp only [requestMessage, Message.head, Message.lines, Message.requestLine, requestFields, headField,
    List.map_cons, List.map_nil, Field.line, joinLines, List.append_assoc, List.cons_append, hblank,
    List.nil_append]

theorem messageText_eq (h : Callable host port method path) (body : Bytes) :
    (requestMessage h body).text = requestHead host port method path body.length ++ body := by
  rw [requestHead_eq h, Message.text, List.append_assoc, List.append_assoc]
  rfl

theorem length_requestHead_lt (h : Callable host port method path) (hbody : body.length < 2 ^ 64) :
    (requestHead host port method path body.length).length < headCapacity host method path := by
  have hport := length_intText_le (by decide) (lt_trans h.port (by decide : 2 ^ 31 < 10 ^ 10))
  have hlength := length_natText_le (by decide) (lt_trans hbody (by decide : 2 ^ 64 < 10 ^ 20))
  have hfixed : (lit " ").length = 1 ∧ (lit " HTTP/1.1\r\nHost: ").length = 17 ∧ (lit ":").length = 1 ∧
      (lit "\r\nContent-Type: application/json\r\nContent-Length: ").length = 50 ∧
      (lit "\r\nConnection: close\r\n\r\n").length = 23 := by decide
  obtain ⟨h₁, h₂, h₃, h₄, h₅⟩ := hfixed
  simp only [requestHead, headCapacity, List.length_append, h₁, h₂, h₃, h₄, h₅]
  omega

/-- The head is never cut by its buffer, and what is sent is the message. -/
theorem requestText_eq (h : Callable host port method path) (hbody : body.length < 2 ^ 64) :
    snprintf (headCapacity host method path) (requestHead host port method path body.length) ++ body =
      (requestMessage h body).text := by
  rw [snprintf_of_lt (length_requestHead_lt h hbody), messageText_eq h]

/-- A server reads nothing of a request whose head is cut. -/
theorem readRequest_cutHead (h : Callable host port method path) {sent : Bytes}
    (hsent : sent <+: requestHead host port method path body.length)
    (hne : sent ≠ requestHead host port method path body.length) : readRequest sent = none := by
  apply (requestMessage h body).readRequest_cut
  · rw [messageText_eq h]
    exact hsent.trans (List.prefix_append _ _)
  · intro hwhole
    rw [messageText_eq h] at hwhole
    have hlength := congrArg List.length hwhole
    rw [List.length_append] at hlength
    exact hne (hsent.eq_of_length_le (by omega))

end

/-! ## The requests of the driver -/

namespace Request

def dbc : Request → Dbc
  | .post p => p.dbc
  | .get dbc _ _ => dbc
  | .delete dbc _ _ => dbc

def method : Request → Bytes
  | .post _ => lit "POST"
  | .get _ _ _ => lit "GET"
  | .delete _ _ _ => lit "DELETE"

def path : Request → Bytes
  | .post _ => lit "/api/execute"
  | .get _ path _ => path
  | .delete _ path _ => path

def sentBody : Request → Bytes
  | .post p => cstr p.body
  | _ => []

/-- What a server is to read of a request. -/
def parts (q : Request) : RequestParts where
  method := q.method
  target := q.path
  fields :=
    [(lit "Host", lit " " ++ q.dbc.host.getD [] ++ lit ":" ++ intText q.dbc.port),
      (lit "Content-Type", lit " application/json"),
      (lit "Content-Length", lit " " ++ natText q.sentBody.length),
      (lit "Connection", lit " close")]
  body := q.sentBody

/-- The host is a line, the port an `int` and the path one word. -/
def Sendable (q : Request) : Prop := Callable (q.dbc.host.getD []) q.dbc.port q.method q.path

theorem text_eq {q : Request} (h : q.Sendable) (hbody : q.sentBody.length < 2 ^ 64) :
    q.text = (requestMessage h q.sentBody).text := by
  rw [← requestText_eq h hbody]
  cases q <;> rfl

theorem word_method (q : Request) : Word q.method := by
  have hpost : Word (lit "POST") := word_of_all (by decide) (by decide)
  have hget : Word (lit "GET") := word_of_all (by decide) (by decide)
  have hdelete : Word (lit "DELETE") := word_of_all (by decide) (by decide)
  cases q with
  | post p => exact hpost
  | get dbc path timeout => exact hget
  | delete dbc path timeout => exact hdelete

end Request

/-- The connection is to a host that is one line and a port that is an `int`. -/
structure Dbc.Reachable (dbc : Dbc) : Prop where
  host : ∀ c ∈ dbc.host.getD [], isLineByte c = true
  port : dbc.port.natAbs < 2 ^ 31

theorem Dbc.Reachable.of_settings {dbc d : Dbc} (h : dbc.Reachable)
    (hd : d.settings = dbc.settings) : d.Reachable := by
  have hhost : d.settings.host = dbc.settings.host := congrArg Dbc.host hd
  have hport : d.settings.port = dbc.settings.port := congrArg Dbc.port hd
  constructor
  · show ∀ c ∈ d.settings.host.getD [], isLineByte c = true
    rw [hhost]
    exact h.host
  · show d.settings.port.natAbs < 2 ^ 31
    rw [hport]
    exact h.port

theorem sendable_post {p : Post} (h : p.dbc.Reachable) : (Request.post p).Sendable := by
  have hpath : Word (lit "/api/execute") := word_of_all (by decide) (by decide)
  exact ⟨h.host, h.port, Request.word_method _, hpath⟩

theorem sendable_get {dbc : Dbc} (h : dbc.Reachable) {path : Bytes} (hpath : Word path) (timeout : ℤ) :
    (Request.get dbc path timeout).Sendable :=
  ⟨h.host, h.port, Request.word_method _, hpath⟩

theorem sendable_delete {dbc : Dbc} (h : dbc.Reachable) {path : Bytes} (hpath : Word path) (timeout : ℤ) :
    (Request.delete dbc path timeout).Sendable :=
  ⟨h.host, h.port, Request.word_method _, hpath⟩

/-! ## The paths of sessions -/

/-- A byte that stands for itself in a segment of a path. -/
def isUnreserved (c : UInt8) : Bool :=
  isUpper c || isLower c || isDigit c || c = ch '-' || c = ch '.' || c = ch '_' || c = ch '~'

theorem escapePathByte_eq (c : UInt8) :
    escapePathByte c = if isUnreserved c then [c] else
      [ch '%', UInt8.ofNat (if c.toNat / 16 < 10 then 48 + c.toNat / 16 else 55 + c.toNat / 16),
        UInt8.ofNat (if c.toNat % 16 < 10 then 48 + c.toNat % 16 else 55 + c.toNat % 16)] := rfl

theorem hexDigit_facts : ∀ n < 16, digitValue 16 (UInt8.ofNat (if n < 10 then 48 + n else 55 + n)) = some n ∧
    isUnreserved (UInt8.ofNat (if n < 10 then 48 + n else 55 + n)) = true := by decide

theorem unreserved_facts {c : UInt8} (h : isUnreserved c = true) :
    isLineByte c = true ∧ c ≠ ch ' ' ∧ c ≠ ch '%' ∧ c ≠ ch '/' ∧ c ≠ ch '?' ∧ c ≠ ch '#' := by
  revert h
  apply forall_byte (P := fun c => isUnreserved c = true →
    isLineByte c = true ∧ c ≠ ch ' ' ∧ c ≠ ch '%' ∧ c ≠ ch '/' ∧ c ≠ ch '?' ∧ c ≠ ch '#')
  decide +kernel

theorem escapeOf_escapePathByte (c : UInt8) : EscapeOf c (escapePathByte c) := by
  rw [escapePathByte_eq]
  split
  · rename_i h
    exact Or.inl ⟨rfl, (unreserved_facts h).2.2.1⟩
  · have hc := c.toNat_lt
    have hhigh := hexDigit_facts (c.toNat / 16) (by omega)
    have hlow := hexDigit_facts (c.toNat % 16) (Nat.mod_lt _ (by decide))
    refine Or.inr ⟨_, _, _, _, rfl, hhigh.1, hlow.1, ?_⟩
    rw [Nat.div_add_mod' c.toNat 16, UInt8.ofNat_toNat]

theorem segmentByte_of_mem {c d : UInt8} (h : d ∈ escapePathByte c) :
    isUnreserved d = true ∨ d = ch '%' := by
  have hc := c.toNat_lt
  have hhigh := hexDigit_facts (c.toNat / 16) (by omega)
  have hlow := hexDigit_facts (c.toNat % 16) (Nat.mod_lt _ (by decide))
  rw [escapePathByte_eq] at h
  split at h
  · rename_i hun
    rw [List.mem_singleton.1 h]
    exact Or.inl hun
  · rcases List.mem_cons.1 h with rfl | h
    · exact Or.inr rfl
    · rcases List.mem_cons.1 h with rfl | h
      · exact Or.inl hhigh.2
      · rw [List.mem_singleton.1 h]
        exact Or.inl hlow.2

/-- One segment of a path that stands for a session. -/
def NamesSession (id segment : Bytes) : Prop :=
  percentDecode segment = some id ∧ ∀ c ∈ segment, c ≠ ch '/' ∧ c ≠ ch '?' ∧ c ≠ ch '#'

theorem segment_facts {id : Bytes} {c : UInt8} (h : c ∈ id.flatMap escapePathByte) :
    (isLineByte c = true ∧ c ≠ ch ' ') ∧ c ≠ ch '/' ∧ c ≠ ch '?' ∧ c ≠ ch '#' := by
  obtain ⟨d, _, hd⟩ := List.mem_flatMap.1 h
  rcases segmentByte_of_mem hd with hun | rfl
  · obtain ⟨hline, hblank, _, hslash, hquery, hfragment⟩ := unreserved_facts hun
    exact ⟨⟨hline, hblank⟩, hslash, hquery, hfragment⟩
  · decide

theorem namesSession_escaped (id : Bytes) : NamesSession id (id.flatMap escapePathByte) :=
  ⟨percentDecode_flatMap escapeOf_escapePathByte id, fun _ hc => (segment_facts hc).2⟩

theorem word_sessionPath (id : Bytes) : Word (lit "/api/sessions/" ++ id.flatMap escapePathByte) := by
  have hfixed : Word (lit "/api/sessions/") := word_of_all (by decide) (by decide)
  refine ⟨List.append_ne_nil_of_left_ne_nil hfixed.1 _, fun c hc => ?_⟩
  exact (List.mem_append.1 hc).elim (hfixed.2 c) fun hc => (segment_facts hc).1

/-! ## Whole or not at all -/

/-- A server reads from what was sent of a request either the request, with nothing behind it, or
nothing. The caller is told of an answer only in the first case. -/
def ReadsRequest (q : Request) (reply : HttpReply) (s : SysHistory) : Prop :=
  readRequest (sentIn s) = some (q.parts, []) ∨
    readRequest (sentIn s) = none ∧ ∃ message, reply = .failed message

theorem readsRequest_of_carriesOut {q : Request} {reply : HttpReply} {s : SysHistory}
    (hq : q.Sendable) (hbody : q.sentBody.length < 2 ^ 64) (h : CarriesOut q reply s) :
    ReadsRequest q reply s := by
  obtain ⟨outcome, hexchanged, hreply⟩ := h
  have hwhole : readRequest q.text = some (q.parts, []) := by
    have hread := (requestMessage hq q.sentBody).readRequest_text []
    rwa [List.append_nil, ← Request.text_eq hq hbody] at hread
  have hcut : ∀ sent, sent <+: q.text → sent ≠ q.text → readRequest sent = none := by
    rw [Request.text_eq hq hbody]
    exact fun sent => (requestMessage hq q.sentBody).readRequest_cut
  have hnil : [] ≠ q.text := by
    intro hnil
    rw [← hnil] at hwhole
    cases hwhole
  unfold ReadsRequest sentIn
  generalize trafficIn s = t at hexchanged
  cases hexchanged with
  | unresolved error => exact Or.inr ⟨hcut [] List.nil_prefix hnil, _, (Option.some.inj hreply).symm⟩
  | unconnected error => exact Or.inr ⟨hcut [] List.nil_prefix hnil, _, (Option.some.inj hreply).symm⟩
  | unsent sent rest error htext hrest =>
    refine Or.inr ⟨hcut sent ⟨rest, htext⟩ ?_, _, (Option.some.inj hreply).symm⟩
    rintro rfl
    exact hrest (by simpa using htext)
  | unread _ error => exact Or.inl hwhole
  | answered => exact Or.inl hwhole

/-- The length of what a call is given fits a `size_t`. -/
def SysCall.Sized : SysCall → Prop
  | .send _ data => data.length < 2 ^ 64
  | _ => True

instance (q : SysCall) : Decidable q.Sized :=
  match q with
  | .send _ data => inferInstanceAs (Decidable (data.length < 2 ^ 64))
  | .getaddrinfo _ _ | .freeaddrinfo | .socket _ _ _ | .setsockopt _ _ _ | .connect _ _
  | .recv _ _ _ _ | .close _ | .strerror => isTrue trivial

theorem exists_send {fd : ℤ} {data : Bytes} {s : SysHistory} {done : Bool} (hne : data ≠ [])
    (hrun : Runs (sendAll fd data) s done) : ∃ r t, s = (.send fd data, r) :: t := by
  cases data with
  | nil => exact absurd rfl hne
  | cons c data =>
    obtain ⟨r, t, rfl, -⟩ := runs_ask_iff.1 hrun
    exact ⟨r, t, rfl⟩

/-- The body is given to a `send`, unless the head was not sent. -/
theorem fits_of_sendRequest {fd : ℤ} {head body : Bytes} {s : SysHistory} {done : Bool}
    (hrun : Runs (sendRequest fd head body) s done) (hsized : ∀ e ∈ s, e.1.Sized) :
    body.length < 2 ^ 64 ∨ done = false ∧ Runs (sendAll fd head) s false := by
  obtain ⟨s₁, s₂, sent, rfl, hhead, hrest⟩ := runs_bind_iff.1 hrun
  cases sent with
  | false =>
    obtain ⟨rfl, rfl⟩ := runs_pure_iff.1 hrest
    rw [List.append_nil]
    exact Or.inr ⟨rfl, hhead⟩
  | true =>
    left
    cases body with
    | nil => exact Nat.two_pow_pos 64
    | cons c body =>
      obtain ⟨r, t, rfl⟩ := exists_send (List.cons_ne_nil c body) hrest
      exact hsized (.send fd (c :: body), r) (by simp)

/-- The request failed with part of its head sent. -/
structure CutHead (head : Bytes) (outcome : HttpOutcome) (s : SysHistory) : Prop where
  failed : ∃ message, outcome = .failed message
  part : sentIn s <+: head
  cut : sentIn s ≠ head

theorem nil_ne_requestHead (host : Bytes) (port : ℤ) (method path : Bytes) (n : ℕ) :
    [] ≠ requestHead host port method path n := by
  unfold requestHead
  exact (List.append_ne_nil_of_right_ne_nil _ (by decide)).symm

/-- What was sent of a request that did not get to its body is part of its head. -/
theorem cut_of_unsent {fd : ℤ} {head : Bytes} {capacity : ℕ} {g : Net} {s : SysHistory} (hon : g.On fd 0)
    (hrun : Runs (sendAll fd (snprintf capacity head)) s false) (hkernel : KernelSound s) :
    sentIn s <+: head ∧ sentIn s ≠ head := by
  have hsent := ((holds_sendAll hon (snprintf capacity head)).runs hrun
    ((admits_netMonitor_iff g s).2 hkernel)).2
  obtain ⟨rest, hrest, hsent⟩ := hsent
  obtain ⟨sent, hhead, hpassed⟩ := hsent.passed
  rw [passed_after] at hpassed
  obtain rfl : sentIn s = sent := congrArg Traffic.sent (Traffic.append_left_cancel hpassed)
  have hpart : sentIn s <+: head := by
    have htake : snprintf capacity head <+: head := List.take_prefix _ _
    rw [← hhead] at htake
    exact (List.prefix_append _ _).trans htake
  refine ⟨hpart, fun hwhole => ?_⟩
  have hne : rest ≠ [] := by simpa using hrest
  have hlength := congrArg List.length hhead
  have hrestlength := List.length_pos_of_ne_nil hne
  rw [List.length_append, hwhole, snprintf, List.length_take] at hlength
  omega

/-- The body of a request fits, unless its head was cut. -/
theorem fits_or_cut {fuel : ℕ} {host : Bytes} {port : ℤ} {method path : Bytes} {body : Option Bytes}
    {timeout : ℤ} {s : SysHistory} {outcome : HttpOutcome}
    (hrun : Runs (httpRequest fuel host port method path body timeout) s (some outcome))
    (hkernel : KernelSound s) (hsized : ∀ e ∈ s, e.1.Sized) :
    (body.getD []).length < 2 ^ 64 ∨
      CutHead (requestHead host port method path (body.getD []).length) outcome s := by
  obtain ⟨s₀, s, opened, rfl, hopen, hrest⟩ := runs_bind_iff.1 hrun
  obtain ⟨hkernel₀, hkernel⟩ := hkernel.of_append
  have hafter := ((holds_connectTo host port timeout idle_start).runs hopen
    ((admits_netMonitor_iff .start s₀).2 hkernel₀)).2
  cases opened with
  | error message =>
    right
    obtain ⟨rfl, hfailed⟩ := runs_pure_iff.1 hrest
    obtain rfl := Option.some.inj hfailed
    obtain ⟨_, t, hpassed, hexchanged⟩ := hafter []
    rw [passed_after] at hpassed
    have hnil : sentIn s₀ = [] := by
      rw [sentIn, Traffic.append_left_cancel hpassed]
      exact List.prefix_nil.1 hexchanged.sent_prefix
    rw [List.append_nil]
    refine ⟨⟨message, rfl⟩, ?_, ?_⟩
    · rw [hnil]
      exact List.nil_prefix
    · rw [hnil]
      exact nil_ne_requestHead _ _ _ _ _
  | ok fd =>
    obtain ⟨hon, hpassed⟩ := hafter
    rw [passed_after] at hpassed
    have hnil : sentIn s₀ = [] := congrArg Traffic.sent (Traffic.append_left_cancel hpassed)
    obtain ⟨s₁, s₂, sent, rfl, hsend, hrest⟩ := runs_bind_iff.1 hrest
    have hsized₁ : ∀ e ∈ s₁, e.1.Sized := fun e he => hsized e (by simp [he])
    rcases fits_of_sendRequest hsend hsized₁ with hfits | ⟨rfl, hhead⟩
    · exact Or.inl hfits
    · right
      obtain ⟨_, _, closed, rfl, hclose, hfail⟩ := runs_bind_iff.1 hrest
      obtain ⟨_, _, error, rfl, herror, hend⟩ := runs_bind_iff.1 hfail
      obtain rfl := runs_call_iff.1 hclose
      obtain rfl := runs_call_iff.1 herror
      obtain ⟨rfl, hfailed⟩ := runs_pure_iff.1 hend
      obtain rfl := Option.some.inj hfailed
      have hsent : sentIn (s₀ ++ (s₁ ++ ([(.close fd, closed)] ++ ([(.strerror, error)] ++ [])))) =
          sentIn s₁ := by
        simp only [sentIn, trafficIn_append]
        rw [Traffic.append_eq, ← sentIn, hnil]
        exact List.append_nil _
      obtain ⟨hpart, hcut⟩ := cut_of_unsent hon hhead hkernel.of_append.1
      rw [← hsent] at hpart hcut
      exact ⟨⟨_, rfl⟩, hpart, hcut⟩

theorem readsRequest_of_run {fuel : ℕ} {q : Request} {reply : HttpReply} {s : SysHistory}
    (hq : q.Sendable) (hrun : Runs (q.carryOut fuel) s (some reply)) (hcarries : CarriesOut q reply s)
    (hkernel : KernelSound s) (hsized : ∀ e ∈ s, e.1.Sized) : ReadsRequest q reply s := by
  obtain ⟨outcome, hcalls, hreply⟩ := runs_map_iff.1 hrun
  rw [eq_comm] at hreply
  obtain ⟨outcome, rfl, hreply⟩ := Option.bind_eq_some_iff.1 hreply
  have hfits : q.sentBody.length < 2 ^ 64 ∨ CutHead (requestHead (q.dbc.host.getD []) q.dbc.port
      q.method q.path q.sentBody.length) outcome s := by
    cases q <;> exact fits_or_cut hcalls hkernel hsized
  rcases hfits with hbody | hcut
  · exact readsRequest_of_carriesOut hq hbody hcarries
  · obtain ⟨message, rfl⟩ := hcut.failed
    exact Or.inr ⟨readRequest_cutHead hq hcut.part hcut.cut, message, (Option.some.inj hreply).symm⟩

theorem forall_readsRequest {fuel : ℕ} {t : Trace} {ss : List SysHistory}
    (hcarries : Carries (Request.carryOut fuel) t ss) (hsendable : ∀ e ∈ t, e.1.Sendable)
    (hkernel : KernelSound ss.flatten) (hsized : ∀ e ∈ ss.flatten, e.1.Sized) :
    List.Forall₂ (fun e s => ReadsRequest e.1 e.2 s) t ss := by
  have hout := forall_carriesOut hcarries hkernel
  induction hcarries with
  | nil => exact .nil
  | cons hq ht ih =>
    rw [List.flatten_cons] at hkernel hsized
    obtain ⟨hhead, htail⟩ := hkernel.of_append
    rw [List.forall_mem_append] at hsized
    rw [List.forall_mem_cons] at hsendable
    cases hout with
    | cons hcarried hrest =>
      exact .cons (readsRequest_of_run hsendable.1 hq hcarried hhead hsized.1)
        (ih hsendable.2 htail hsized.2 hrest)

/-! ## The requests of a connection -/

/-- The monitor of the requests that can be read. -/
def sendMonitor : Monitor Request HttpReply Unit where
  next _ _ _ := ()
  allows _ q := q.Sendable
  admits _ _ _ := True

theorem holds_release_reachable {dbc : Dbc} (h : dbc.Reachable) :
    sendMonitor.Holds (flProtoRelease dbc) (fun d _ => d.Reachable) () := by
  have hreleased : ({ dbc with sessionId := none } : Dbc).Reachable := ⟨h.host, h.port⟩
  unfold flProtoRelease
  split
  · next id _ =>
    split
    · exact ⟨sendable_delete h (word_sessionPath id) _, fun _ _ => Monitor.holds_pure hreleased⟩
    · exact Monitor.holds_pure hreleased
  · exact Monitor.holds_pure hreleased

theorem connectKeeps_reachable :
    ConnectKeeps sendMonitor (fun d _ => d.Reachable) fun d _ => d.Reachable where
  allows h := sendable_post h
  lost h _ _ := h.of_settings (settings_forgetSession _)
  failed h _ _ _ := h
  absorbed h _ _ := h.of_settings (settings_absorbed _ _)
  noted sql h := h.of_settings (settings_flSessionNote _ sql)
  settled h := ⟨h.host, h.port⟩
  named _ _ h := ⟨h.host, h.port⟩
  release h := holds_release_reachable ⟨h.host, h.port⟩

theorem executionsKeep_reachable : ExecutionsKeep sendMonitor fun d _ => d.Reachable where
  execute sql count _ h := connectKeeps_reachable.holds_execute h sql count _
  autocommit wanted h := by
    have hset : ∀ (d : Dbc) (_ : Unit), d.Reachable → ({ d with autocommit := wanted } : Dbc).Reachable :=
      fun d _ hd => ⟨hd.host, hd.port⟩
    exact holds_mirror wanted (fun _ => connectKeeps_reachable.holds_execute h _ _ _) hset h
  frame _ _ _ h := ⟨h.host, h.port⟩

theorem holds_sqlDisconnect_reachable {dbc : Dbc} (h : dbc.Reachable) :
    sendMonitor.Holds (sqlDisconnect dbc) (fun a _ => a.2.Reachable) () := by
  unfold sqlDisconnect
  split
  · exact Monitor.holds_pure h
  · have hrelease : ({ dbc with connected := false } : Dbc).Reachable := ⟨h.host, h.port⟩
    exact (holds_release_reachable hrelease).bind fun d _ hd => Monitor.holds_pure hd

/-- Every request of a connect and the calls after it can be read. -/
theorem holds_connectAndRun_sendable (database schema : Option Bytes) (calls : List ConnectionCall)
    {dbc : Dbc} (h : dbc.Reachable) :
    sendMonitor.Holds (connectAndRun database schema calls dbc) (fun d _ => d.Reachable) () := by
  have hhealth : Word (lit "/api/health") := word_of_all (by decide) (by decide)
  have hnamed : ({ dbc with host := some (dbc.host.getD (lit "localhost")) } : Dbc).Reachable := by
    refine ⟨?_, h.port⟩
    show ∀ c ∈ dbc.host.getD (lit "localhost"), isLineByte c = true
    have hhost := h.host
    cases hd : dbc.host with
    | none => exact forall_mem_of_all (by decide)
    | some host =>
      rw [hd] at hhost
      exact hhost
  have hconnect : sendMonitor.Holds (doConnect database schema dbc) _ () :=
    connectKeeps_reachable.holds_doConnect database schema rfl (sendable_get hnamed hhealth _)
      (fun _ => hnamed) fun _ => ⟨hnamed.host, hnamed.port⟩
  apply hconnect.bind
  rintro ⟨outcome, d⟩ _ hd
  cases outcome with
  | ok _ =>
    exact executionsKeep_reachable.holds_runCalls (fun _ _ h => holds_sqlDisconnect_reachable h)
      (hd.ok rfl) calls
  | error diag => exact Monitor.holds_pure (hd.error fun h => by cases h)

/-- **Every request of a connection is on the wire whole or not at all.** In every run of a connect and
any calls after it over the sockets, on a host that is one line and a port that is an `int`, what a
server reads of the bytes of each request is that request or nothing, whatever the kernel makes of the
calls that send it. -/
theorem overSockets_reads (fuel : ℕ) {database schema : Option Bytes} {calls : List ConnectionCall}
    {dbc d : Dbc} (hdbc : dbc.Reachable) {u : SysHistory}
    (hrun : Runs (overSockets fuel (connectAndRun database schema calls dbc)) u (some d))
    (hkernel : KernelSound u) (hsized : ∀ e ∈ u, e.1.Sized) :
    ∃ t ss, ss.flatten = u ∧ Runs (connectAndRun database schema calls dbc) t d ∧
      List.Forall₂ (fun e s => ReadsRequest e.1 e.2 s) t ss := by
  obtain ⟨t, ss, hcarries, rfl, hp⟩ := runs_carriedBy_iff.1 hrun
  have hallowed := ((holds_connectAndRun_sendable database schema calls hdbc).runs hp
    (Monitor.admits_of_forall (fun _ _ _ => trivial) ())).1
  have hsendable : ∀ e ∈ t, e.1.Sendable := by
    intro e he
    obtain ⟨before, after, ht⟩ := List.append_of_mem he
    exact hallowed before e.1 e.2 after ht
  exact ⟨t, ss, rfl, hp, forall_readsRequest hcarries hsendable hkernel hsized⟩

/-- A connect with a database, a statement and a disconnect. -/
def wireCalls : Call Dbc :=
  connectAndRun (some (lit "DEMO")) none [execText "SELECT 1", .disconnect] allocDbc

/-- The answers of a kernel that connects at once and takes what it is sent in the parts `sends`; `rest`
is what it answers behind that. -/
def wireAnswers (sends : List ℤ) (rest : List SysAnswer) : List SysAnswer :=
  [{ result := 0, addresses := [⟨2, 1, 6, lit "127.0.0.1"⟩] }, { result := 3 }, { result := 0 },
    { result := 0 }, { result := 0 }, { result := 0 }] ++
      sends.map (fun n => { result := n }) ++ rest

/-- A response in one piece. -/
def wireResponse (body : Bytes) : List SysAnswer :=
  let text := lit "HTTP/1.1 200 OK\r\n\r\n" ++ body
  [{ result := text.length, data := text }, { result := 0 }, { result := 0 }]

/-- The probe, the scope, a statement that is cut in its body, and the release. -/
def connectionAnswers : List SysAnswer :=
  wireAnswers [100, 21] (wireResponse []) ++
    wireAnswers [124, 45] (wireResponse
      (lit "\x7b\"success\":true,\"sessionId\":\"s1\",\"newSession\":true\x7d")) ++
    wireAnswers [124, 30, -1] [{ result := 0 }, { result := 0, data := lit "Broken pipe" }] ++
    wireAnswers [129] (wireResponse [])

theorem overSockets_reads_connection : ∃ u d, Runs (overSockets 20 wireCalls) u (some d) ∧
    ∃ t ss, ss.flatten = u ∧ Runs wireCalls t d ∧
      List.Forall₂ (fun e s => ReadsRequest e.1 e.2 s) t ss := by
  have hplay : ((overSockets 20 wireCalls).play connectionAnswers).any (fun (u, a) =>
      a.isSome && decide (KernelSound u) && decide (∀ e ∈ u, e.1.Sized)) = true := by
    decide +kernel
  obtain ⟨⟨u, a⟩, hplay, hchecked⟩ := Option.any_eq_true _ _ |>.1 hplay
  simp only [Bool.and_eq_true, decide_eq_true_eq] at hchecked
  obtain ⟨⟨hsome, hkernel⟩, hsized⟩ := hchecked
  obtain ⟨d, rfl⟩ := Option.isSome_iff_exists.1 hsome
  have hdbc : allocDbc.Reachable := ⟨forall_mem_of_all (by decide), by decide⟩
  have hrun := runs_of_play _ _ hplay
  exact ⟨u, d, hrun, overSockets_reads 20 hdbc hrun hkernel hsized⟩

/-! ## Releasing a session -/

/-- **A release names the session the connection held, and no other.** Over its sockets,
`fl_proto_release` forgets the session whatever comes back, and sends nothing unless the connection
holds a session the engine keeps track of; then a server reads a DELETE of one segment that stands for
exactly the id of that session, or nothing. -/
theorem release_names (fuel : ℕ) {dbc dbc' : Dbc} {u : SysHistory}
    (hrun : Runs (overSockets fuel (flProtoRelease dbc)) u (some dbc')) (hkernel : KernelSound u)
    (hdbc : dbc.Reachable) :
    dbc' = { dbc with sessionId := none } ∧
      match dbc.sessionId with
      | none => u = []
      | some id =>
          if dbc.tracksSessions = 1 then
            ∃ segment, NamesSession id segment ∧
              ∀ read, readRequest (sentIn u) = some read → read.2 = [] ∧ read.1.body = [] ∧
                read.1.method = lit "DELETE" ∧ read.1.target = lit "/api/sessions/" ++ segment
          else u = [] := by
  obtain ⟨t, ss, rfl, hp, hforall⟩ := exists_carriesOut fuel _ hrun hkernel
  unfold flProtoRelease at hp
  cases hid : dbc.sessionId with
  | none =>
    rw [hid] at hp
    obtain ⟨rfl, rfl⟩ := runs_pure_iff.1 hp
    cases hforall
    exact ⟨rfl, rfl⟩
  | some id =>
    rw [hid] at hp
    dsimp only at hp ⊢
    by_cases htracks : dbc.tracksSessions = 1
    · rw [if_pos htracks] at hp ⊢
      obtain ⟨_, _, reply, rfl, hcall, hend⟩ := runs_bind_iff.1 hp
      obtain rfl := runs_call_iff.1 hcall
      obtain ⟨rfl, rfl⟩ := runs_pure_iff.1 hend
      cases hforall with
      | cons hcarried hnil =>
        cases hnil
        have hread := readsRequest_of_carriesOut (sendable_delete hdbc (word_sessionPath id) _)
          (Nat.two_pow_pos 64) hcarried
        refine ⟨rfl, _, namesSession_escaped id, fun read hr => ?_⟩
        rw [List.flatten_singleton] at hr
        rcases hread with hsome | ⟨hnone, _⟩
        · obtain rfl := Option.some.inj (hsome.symm.trans hr)
          exact ⟨rfl, rfl, rfl, rfl⟩
        · cases hnone.symm.trans hr
    · rw [if_neg htracks] at hp ⊢
      obtain ⟨rfl, rfl⟩ := runs_pure_iff.1 hp
      cases hforall
      exact ⟨rfl, rfl⟩

theorem release_names_held : ∃ segment, NamesSession (lit "a/b c") segment ∧
    ∀ read, readRequest (sentIn releaseRun) = some read → read.2 = [] ∧ read.1.body = [] ∧
      read.1.method = lit "DELETE" ∧ read.1.target = lit "/api/sessions/" ++ segment := by
  have hdbc : heldDbc.Reachable := ⟨forall_mem_of_all (by decide), by decide⟩
  have h := (release_names 20 runs_releaseRun kernelSound_releaseRun hdbc).2
  exact h

end FrostlakeOdbc
