import FrostlakeOdbc.Transport
import Mathlib.Data.List.Forall2

/-!
# What one request does to the system

`netMonitor` follows what the process holds of the system (an address list, a descriptor) and what
has passed (`Traffic`), and allows a system call only where it makes sense. One pass over
`http_request` with it (`holds_httpRequest`) shows that its calls are all allowed, that it leaves
nothing open, and that its outcome tells what passed (`Exchanged`), however the kernel divides the
data. From there a call of the driver over its sockets is one over HTTP.
-/

namespace FrostlakeOdbc

open CString Exchange Client

/-! ## What passes -/

/-- What has passed between the process and the system. -/
@[ext] structure Traffic where
  /-- How many hosts were resolved. -/
  resolved : ℕ := 0
  /-- What was said of each host that was not. -/
  unresolved : List Bytes := []
  /-- How many descriptors were connected. -/
  connected : ℕ := 0
  sent : Bytes := []
  received : Bytes := []
  /-- How often a stream came to its end. -/
  ends : ℕ := 0
  /-- What was said of `errno`. -/
  errors : List Bytes := []

namespace Traffic

instance : Append Traffic where
  append a b :=
    { resolved := a.resolved + b.resolved
      unresolved := a.unresolved ++ b.unresolved
      connected := a.connected + b.connected
      sent := a.sent ++ b.sent
      received := a.received ++ b.received
      ends := a.ends + b.ends
      errors := a.errors ++ b.errors }

variable (a b c : Traffic)

theorem append_eq : a ++ b =
    { resolved := a.resolved + b.resolved
      unresolved := a.unresolved ++ b.unresolved
      connected := a.connected + b.connected
      sent := a.sent ++ b.sent
      received := a.received ++ b.received
      ends := a.ends + b.ends
      errors := a.errors ++ b.errors } := rfl

theorem append_assoc : a ++ b ++ c = a ++ (b ++ c) := by
  simp only [append_eq, Nat.add_assoc, List.append_assoc]

@[simp] theorem append_empty : a ++ ({} : Traffic) = a := by
  simp [append_eq]

variable {a b c}

theorem append_left_cancel (h : a ++ b = a ++ c) : b = c := by
  rw [Traffic.ext_iff] at h ⊢
  simpa [append_eq] using h

end Traffic

/-- What a kernel that accepts part of what it is offered has accepted. -/
def SysAnswer.accepted (r : SysAnswer) (data : Bytes) : Bytes := data.take r.result.toNat

/-- The bytes a `recv` wrote. -/
def SysAnswer.handed (r : SysAnswer) : Bytes := r.received.getD []

/-- What passes with a system call and its answer. -/
def SysCall.traffic (r : SysAnswer) : SysCall → Traffic
  | .getaddrinfo _ _ => if r.result = 0 then { resolved := 1 } else { unresolved := [r.data] }
  | .connect _ _ => if r.result = 0 then { connected := 1 } else {}
  | .send _ data => { sent := r.accepted data }
  | .recv _ _ _ _ => { received := r.handed, ends := if r.result = 0 then 1 else 0 }
  | .strerror => { errors := [r.data] }
  | .freeaddrinfo | .socket _ _ _ | .setsockopt _ _ _ | .close _ => {}

/-! ## What the process holds -/

/-- What the process holds of the system, and what has passed. -/
structure Net where
  /-- Whether there is an address list to free. -/
  list : Bool
  fd : Option ℤ
  connected : Bool
  /-- How much the descriptor has handed over. -/
  delivered : ℕ
  passed : Traffic

/-- What a system call and its answer change. -/
def Net.next (g : Net) (q : SysCall) (r : SysAnswer) : Net :=
  match q with
  | .getaddrinfo _ _ =>
      if r.result = 0 then { g with list := true, passed := g.passed ++ { resolved := 1 } }
      else { g with passed := g.passed ++ { unresolved := [r.data] } }
  | .freeaddrinfo => { g with list := false }
  | .socket _ _ _ =>
      if r.result < 0 then g
      else { g with fd := some r.result, connected := false, delivered := 0 }
  | .setsockopt _ _ _ => g
  | .connect _ _ =>
      if r.result = 0 then { g with connected := true, passed := g.passed ++ { connected := 1 } }
      else g
  | .send _ data => { g with passed := g.passed ++ { sent := r.accepted data } }
  | .recv _ _ _ _ =>
      { g with
        delivered := g.delivered + r.handed.length
        passed := g.passed ++ { received := r.handed, ends := if r.result = 0 then 1 else 0 } }
  | .close _ => { g with fd := none, connected := false }
  | .strerror => { g with passed := g.passed ++ { errors := [r.data] } }

/-- What the monitor remembers to have passed is what the calls say. -/
theorem passed_next (g : Net) (q : SysCall) (r : SysAnswer) :
    (g.next q r).passed = g.passed ++ q.traffic r := by
  cases q with
  | getaddrinfo host port => simp only [Net.next, SysCall.traffic]; split <;> rfl
  | socket family socktype protocol => simp only [Net.next, SysCall.traffic]; split <;> simp
  | connect fd addr => simp only [Net.next, SysCall.traffic]; split <;> simp
  | _ => simp [Net.next, SysCall.traffic]

/-- Where a system call makes sense: on the open descriptor, connected where data is to pass; one
list and one descriptor at a time. A `recv` goes right behind what has been handed over, and there is
room for all it may write and a NUL. -/
def Net.Allows (g : Net) : SysCall → Prop
  | .getaddrinfo _ _ => g.list = false ∧ g.fd = none
  | .freeaddrinfo => g.list = true
  | .socket _ _ _ => g.list = true ∧ g.fd = none
  | .setsockopt fd _ seconds => g.fd = some fd ∧ g.connected = false ∧ 0 < seconds
  | .connect fd _ => g.fd = some fd ∧ g.connected = false
  | .send fd data => g.fd = some fd ∧ g.connected = true ∧ data ≠ []
  | .recv fd capacity offset size =>
      g.fd = some fd ∧ g.connected = true ∧ offset = g.delivered ∧
        offset + size < capacity ∧ capacity ≤ 2 * (offset + size)
  | .close fd => g.fd = some fd
  | .strerror => True

/-- What the kernel keeps to: it takes no more than it is offered, and writes as much as it says and
no more than it is asked for. -/
def SysCall.KeptBy (r : SysAnswer) : SysCall → Prop
  | .send _ data => r.result ≤ data.length
  | .recv _ _ _ size => r.result ≤ size ∧ r.result ≤ r.data.length
  | _ => True

instance (r : SysAnswer) (q : SysCall) : Decidable (q.KeptBy r) :=
  match q with
  | .send _ data => inferInstanceAs (Decidable (r.result ≤ data.length))
  | .recv _ _ _ size => inferInstanceAs (Decidable (r.result ≤ size ∧ r.result ≤ r.data.length))
  | .getaddrinfo _ _ | .freeaddrinfo | .socket _ _ _ | .setsockopt _ _ _ | .connect _ _ | .close _
  | .strerror => isTrue trivial

def netMonitor : Monitor SysCall SysAnswer Net where
  next := Net.next
  allows := Net.Allows
  admits _ q r := q.KeptBy r

theorem next_netMonitor (g : Net) (q : SysCall) (r : SysAnswer) : netMonitor.next g q r = g.next q r :=
  rfl

/-- Nothing is held. -/
structure Net.Idle (g : Net) : Prop where
  list : g.list = false
  fd : g.fd = none

/-- A connected descriptor that has handed over `n` bytes. -/
structure Net.On (fd : ℤ) (n : ℕ) (g : Net) : Prop where
  list : g.list = false
  fd : g.fd = some fd
  connected : g.connected = true
  delivered : g.delivered = n

/-- A system call that makes sense where it is made, and what goes on from its answer. -/
theorem holds_sys {α : Type} {q : SysCall} {f : SysAnswer → Sys α} {post : α → Net → Prop} {g : Net}
    (h : g.Allows q) (hf : ∀ r, q.KeptBy r → netMonitor.Holds (f r) post (g.next q r)) :
    netMonitor.Holds (Client.call q >>= f) post g := Monitor.holds_call_bind h hf

/-! ## Connecting -/

theorem holds_setTimeouts {fd timeout : ℤ} {g : Net} (hfd : g.fd = some fd)
    (hconn : g.connected = false) :
    netMonitor.Holds (setTimeouts fd timeout) (fun _ g' => g' = g) g := by
  unfold setTimeouts
  split
  · rename_i hpos
    refine holds_sys ?_ fun _ _ => ?_
    · exact ⟨hfd, hconn, hpos⟩
    refine holds_sys ?_ fun _ _ => ?_
    · exact ⟨hfd, hconn, hpos⟩
    exact Monitor.holds_pure rfl
  · exact Monitor.holds_pure rfl

/-- A new descriptor. -/
def Net.opened (g : Net) (fd : ℤ) : Net :=
  { g with fd := some fd, connected := false, delivered := 0 }

/-- The state with `fd` connected and nothing handed over by it yet. -/
def Net.connectedTo (g : Net) (fd : ℤ) : Net :=
  { g.opened fd with connected := true, passed := g.passed ++ { connected := 1 } }

/-- What the loop of `connect_to` leaves: a connected descriptor, or none. -/
def AfterConnect (g : Net) (fd : Option ℤ) (g' : Net) : Prop :=
  match fd with
  | some fd => g' = g.connectedTo fd
  | none => g'.list = g.list ∧ g'.fd = none ∧ g'.passed = g.passed

theorem next_socket {g : Net} {family socktype protocol : ℤ} {r : SysAnswer} (h : ¬r.result < 0) :
    g.next (.socket family socktype protocol) r = g.opened r.result := if_neg h

theorem AfterConnect.of_failed {g g' : Net} {made : ℤ} {fd : Option ℤ}
    (h : AfterConnect { g.opened made with fd := none } fd g') : AfterConnect g fd g' := by
  cases fd with
  | some fd => exact h
  | none => exact h

theorem holds_connectFirst (timeout : ℤ) (addresses : List Address) {g : Net} (hlist : g.list = true)
    (hfd : g.fd = none) :
    netMonitor.Holds (connectFirst timeout addresses) (AfterConnect g) g := by
  induction addresses generalizing g with
  | nil => exact Monitor.holds_pure ⟨rfl, hfd, rfl⟩
  | cons address rest ih =>
    refine holds_sys ?_ fun made _ => ?_
    · exact ⟨hlist, hfd⟩
    by_cases hmade : made.result < 0
    · have hnext : g.next (.socket address.family address.socktype address.protocol) made = g :=
        if_pos hmade
      rw [if_pos hmade, hnext]
      exact ih hlist hfd
    · rw [if_neg hmade, next_socket hmade]
      apply (holds_setTimeouts rfl rfl).bind
      rintro _ _ rfl
      refine holds_sys ?_ fun answer _ => ?_
      · exact ⟨rfl, rfl⟩
      by_cases hconn : answer.result = 0
      · have hnext : (g.opened made.result).next (.connect made.result address.addr) answer =
            g.connectedTo made.result := if_pos hconn
        rw [if_pos hconn, hnext]
        exact Monitor.holds_pure rfl
      · have hnext : (g.opened made.result).next (.connect made.result address.addr) answer =
            g.opened made.result := if_neg hconn
        rw [if_neg hconn, hnext]
        refine holds_sys ?_ fun _ _ => ?_
        · exact rfl
        have hclosed := ih (g := { g.opened made.result with fd := none }) hlist rfl
        exact hclosed.mono fun fd g' h => AfterConnect.of_failed h

/-- What an outcome tells of a request with the given text: what passed to and fro. -/
inductive Exchanged (text : Bytes) : Traffic → HttpOutcome → Prop where
  | unresolved (error : Bytes) : Exchanged text { unresolved := [error] }
      (.failed (httpError (lit "cannot resolve host") (some error)))
  | unconnected (error : Bytes) : Exchanged text { resolved := 1, errors := [error] }
      (.failed (httpError (lit "cannot connect") (some error)))
  | unsent (sent rest error : Bytes) (htext : sent ++ rest = text) (h : rest ≠ []) :
      Exchanged text { resolved := 1, connected := 1, sent := sent, errors := [error] }
        (.failed (httpError (lit "cannot send request") (some error)))
  | unread (received error : Bytes) :
      Exchanged text
        { resolved := 1, connected := 1, sent := text, received := received, errors := [error] }
        (.failed (httpError (lit "cannot read response") (some error)))
  | answered (received : Bytes) :
      Exchanged text { resolved := 1, connected := 1, sent := text, received := received, ends := 1 }
        (readResponse received)

theorem Exchanged.sent_prefix {text : Bytes} {t : Traffic} {outcome : HttpOutcome}
    (h : Exchanged text t outcome) : t.sent <+: text := by
  cases h with
  | unresolved | unconnected => exact List.nil_prefix
  | unsent sent rest error htext => exact ⟨rest, htext⟩
  | unread | answered => exact List.prefix_refl _

/-- A request that has come to an outcome, from the state `g` on. -/
def Net.Done (g : Net) (text : Bytes) (outcome : HttpOutcome) (g' : Net) : Prop :=
  g'.Idle ∧ ∃ t, g'.passed = g.passed ++ t ∧ Exchanged text t outcome

/-- What `connect_to` leaves: a connected descriptor, or nothing and its error. -/
def AfterOpen (g : Net) (opened : Except Bytes ℤ) (g' : Net) : Prop :=
  match opened with
  | .ok fd => g'.On fd 0 ∧ g'.passed = g.passed ++ { resolved := 1, connected := 1 }
  | .error message => ∀ text, g.Done text (.failed message) g'

theorem holds_connectTo (host : Bytes) (port timeout : ℤ) {g : Net} (hg : g.Idle) :
    netMonitor.Holds (connectTo host port timeout) (AfterOpen g) g := by
  unfold connectTo
  refine holds_sys ?_ fun found _ => ?_
  · exact ⟨hg.list, hg.fd⟩
  by_cases hfound : found.result = 0
  · have hnext : g.next (.getaddrinfo host (snprintf 16 (intText port))) found =
        { g with list := true, passed := g.passed ++ { resolved := 1 } } := if_pos hfound
    rw [if_neg (not_not.2 hfound), hnext]
    have hconnect := holds_connectFirst
      (g := { g with list := true, passed := g.passed ++ { resolved := 1 } }) timeout found.addresses
      rfl hg.fd
    apply hconnect.bind
    rintro (_ | fd) g' h
    · refine holds_sys ?_ fun _ _ => ?_
      · exact h.1
      refine holds_sys ?_ fun error _ => ?_
      · exact trivial
      refine Monitor.holds_pure fun text => ⟨⟨rfl, h.2.1⟩, _, ?_, .unconnected error.data⟩
      show g'.passed ++ _ = _
      rw [h.2.2, Traffic.append_assoc]
      rfl
    · obtain rfl : g' = _ := h
      refine holds_sys ?_ fun _ _ => ?_
      · exact rfl
      exact Monitor.holds_pure ⟨⟨rfl, rfl, rfl, rfl⟩, Traffic.append_assoc _ _ _⟩
  · have hnext : g.next (.getaddrinfo host (snprintf 16 (intText port))) found =
        { g with passed := g.passed ++ { unresolved := [found.data] } } := if_neg hfound
    rw [if_pos hfound, hnext]
    exact Monitor.holds_pure fun text => ⟨⟨hg.list, hg.fd⟩, _, rfl, .unresolved found.data⟩

/-! ## Sending and reading -/

/-- `rest` of the data is left to send. -/
structure Net.Sent (g : Net) (fd : ℤ) (data rest : Bytes) (g' : Net) : Prop where
  on : g'.On fd 0
  passed : ∃ sent, sent ++ rest = data ∧ g'.passed = g.passed ++ { sent := sent }

theorem Net.Sent.self {g : Net} {fd : ℤ} (h : g.On fd 0) (data : Bytes) : g.Sent fd data data g :=
  ⟨h, [], rfl, (Traffic.append_empty _).symm⟩

/-- What a `send` takes is no longer left. -/
theorem Net.Sent.next {g g' : Net} {fd : ℤ} {data rest : Bytes} (h : g.Sent fd data rest g')
    (r : SysAnswer) :
    g.Sent fd data (rest.drop r.result.toNat) (g'.next (.send fd rest) r) := by
  obtain ⟨sent, hdata, hpassed⟩ := h.passed
  refine ⟨⟨h.on.list, h.on.fd, h.on.connected, h.on.delivered⟩, sent ++ r.accepted rest, ?_, ?_⟩
  · rw [SysAnswer.accepted, List.append_assoc, List.take_append_drop, hdata]
  · rw [passed_next, hpassed, Traffic.append_assoc]
    rfl

theorem holds_sendAll {fd : ℤ} {g : Net} (h : g.On fd 0) (data : Bytes) :
    netMonitor.Holds (sendAll fd data)
      (fun done g' => ∃ rest, (done = true ↔ rest = []) ∧ g.Sent fd data rest g') g := by
  have hstep : ∀ rest g', rest ≠ [] → g.Sent fd data rest g' →
      netMonitor.allows g' (.send fd rest) ∧ ∀ r, netMonitor.admits g' (.send fd rest) r →
        if r.result ≤ 0 then g.Sent fd data rest (netMonitor.next g' (.send fd rest) r)
        else g.Sent fd data (rest.drop r.result.toNat) (netMonitor.next g' (.send fd rest) r) := by
    intro rest g' hrest hsent
    refine ⟨⟨hsent.on.fd, hsent.on.connected, hrest⟩, fun r _ => ?_⟩
    split
    · rename_i hnone
      have hsame := hsent.next r
      rwa [Int.toNat_of_nonpos hnone, List.drop_zero] at hsame
    · exact hsent.next r
  apply (holds_writeAll hstep (Nat.le_refl data.length) (Net.Sent.self h data)).mono
  rintro (_ | _) g' hafter
  · obtain ⟨rest, hrest, _, hsent⟩ := hafter
    exact ⟨rest, by simp [hrest], hsent⟩
  · exact ⟨[], by simp, hafter⟩

theorem Net.Sent.append {g g' g'' : Net} {fd : ℤ} {head body rest : Bytes}
    (h : g.Sent fd head [] g') (h' : g'.Sent fd body rest g'') : g.Sent fd (head ++ body) rest g'' := by
  obtain ⟨sent, hsent, hpassed⟩ := h.passed
  obtain ⟨sent', hsent', hpassed'⟩ := h'.passed
  refine ⟨h'.on, sent ++ sent', ?_, ?_⟩
  · rw [List.append_assoc, hsent', ← hsent, List.append_nil]
  · rw [hpassed', hpassed, Traffic.append_assoc]
    rfl

/-- A head that is not sent whole is followed by nothing. -/
theorem Net.Sent.before {g g' : Net} {fd : ℤ} {head rest : Bytes} (h : g.Sent fd head rest g')
    (body : Bytes) : g.Sent fd (head ++ body) (rest ++ body) g' := by
  obtain ⟨sent, hsent, hpassed⟩ := h.passed
  exact ⟨h.on, sent, by rw [← List.append_assoc, hsent], hpassed⟩

theorem holds_sendRequest {fd : ℤ} {g : Net} (h : g.On fd 0) (head body : Bytes) :
    netMonitor.Holds (sendRequest fd head body)
      (fun done g' => ∃ rest, (done = true ↔ rest = []) ∧ g.Sent fd (head ++ body) rest g') g := by
  unfold sendRequest
  apply (holds_sendAll h head).bind
  rintro (_ | _) g' ⟨rest, hrest, hsent⟩
  · have hne : rest ≠ [] := by simpa using hrest
    exact Monitor.holds_pure ⟨rest ++ body, by simp [hne], hsent.before body⟩
  · obtain rfl : rest = [] := hrest.1 rfl
    by_cases hbody : 0 < body.length
    · rw [Bool.true_and, if_pos (decide_eq_true hbody)]
      apply (holds_sendAll hsent.on body).mono
      rintro done g'' ⟨rest, hrest, hsent'⟩
      exact ⟨rest, hrest, hsent.append hsent'⟩
    · rw [Bool.true_and, if_neg (by simpa using hbody)]
      obtain rfl : body = [] := List.eq_nil_of_length_eq_zero (Nat.eq_zero_of_not_pos hbody)
      exact Monitor.holds_pure ⟨[], hrest, hsent.append (Net.Sent.self hsent.on [])⟩

/-- `data` has come in since `g`, and its stream has come to its end `ends` times. -/
structure Net.Read (g : Net) (fd : ℤ) (data : Bytes) (ends : ℕ) (g' : Net) : Prop where
  list : g'.list = false
  fd : g'.fd = some fd
  passed : g'.passed = g.passed ++ { received := data, ends := ends }

theorem received_eq_some {r : SysAnswer} {data : Bytes} (h : r.received = some data) :
    0 ≤ r.result ∧ r.data.take r.result.toNat = data := by
  unfold SysAnswer.received at h
  split at h
  · cases h
  · exact ⟨by omega, Option.some.inj h⟩

theorem handed_of_received {r : SysAnswer} {data : Bytes} (h : r.received = some data) :
    r.handed = data := by
  rw [SysAnswer.handed, h, Option.getD_some]

/-- A `recv` that wrote something or nothing, by a kernel that writes as much as it says. -/
theorem result_of_received {r : SysAnswer} {data : Bytes} {size : ℕ} (h : r.received = some data)
    (hkept : r.result ≤ size ∧ r.result ≤ r.data.length) :
    r.result = data.length ∧ data.length ≤ size := by
  obtain ⟨hnonneg, hdata⟩ := received_eq_some h
  rw [← hdata, List.length_take]
  omega

theorem next_recv {g : Net} {r : SysAnswer} {data : Bytes} {fd : ℤ} {capacity offset size : ℕ}
    (h : r.received = some data) (hkept : r.result ≤ size ∧ r.result ≤ r.data.length) :
    g.next (.recv fd capacity offset size) r =
      { g with
        delivered := g.delivered + data.length
        passed := g.passed ++ { received := data, ends := if data = [] then 1 else 0 } } := by
  have hresult := (result_of_received h hkept).1
  have hend : r.result = 0 ↔ data = [] := by
    rw [hresult, Nat.cast_eq_zero, List.length_eq_zero_iff]
  simp only [Net.next, handed_of_received h, hend]

theorem readable_recv (fd : ℤ) (g : Net) :
    Readable netMonitor (fun capacity length => .recv fd capacity length recvSize)
      SysAnswer.received recvSize (fun data g' => g'.On fd data.length ∧ g.Read fd data 0 g')
      (fun g' => ∃ data, g.Read fd data 0 g') (fun data g' => g.Read fd data 1 g') where
  allows := by
    intro data capacity g' h hroom hcap
    exact ⟨h.1.fd, h.1.connected, h.1.delivered.symm, hroom, hcap⟩
  failed := by
    rintro data capacity g' r ⟨_, hread⟩ _ hfailed
    have hneg : r.result < 0 := by
      by_contra hpos
      rw [SysAnswer.received, if_neg hpos] at hfailed
      cases hfailed
    have hnext : g'.next (.recv fd capacity data.length recvSize) r = g' := by
      simp [Net.next, SysAnswer.handed, hfailed, hneg.ne]
    rw [next_netMonitor, hnext]
    exact ⟨data, hread⟩
  ended := by
    rintro data capacity g' r ⟨_, hread⟩ hkept hended
    have hnext : g'.next (.recv fd capacity data.length recvSize) r = _ := next_recv hended hkept
    rw [next_netMonitor, hnext]
    refine ⟨hread.list, hread.fd, ?_⟩
    rw [hread.passed, Traffic.append_assoc]
    simp [Traffic.append_eq]
  more := by
    rintro data capacity g' r more ⟨hon, hread⟩ hkept hmore hne
    have hnext : g'.next (.recv fd capacity data.length recvSize) r = _ := next_recv hmore hkept
    rw [next_netMonitor, hnext, List.length_append]
    refine ⟨(result_of_received hmore hkept).2,
      ⟨hon.list, hon.fd, hon.connected, by rw [← hon.delivered]⟩, hread.list, hread.fd, ?_⟩
    rw [hread.passed, Traffic.append_assoc, if_neg hne]
    rfl

/-! ## One request -/

theorem holds_failWith {g g₀ : Net} {what : String} {text : Bytes} {t : Traffic} (hidle : g.Idle)
    (hpassed : g.passed = g₀.passed ++ t)
    (h : ∀ error, Exchanged text (t ++ { errors := [error] })
      (.failed (httpError (lit what) (some error)))) :
    netMonitor.Holds (failWith what) (fun outcome g' => ∀ o, outcome = some o → g₀.Done text o g') g := by
  refine holds_sys ?_ fun error _ => ?_
  · exact trivial
  apply Monitor.holds_pure
  rintro _ ⟨⟩
  refine ⟨⟨hidle.list, hidle.fd⟩, _, ?_, h error.data⟩
  rw [passed_next, hpassed, Traffic.append_assoc]
  rfl

theorem holds_receiveResponse (fuel : ℕ) {fd : ℤ} {g₀ g : Net} {text : Bytes} (h : g.On fd 0)
    (hpassed : g.passed = g₀.passed ++ { resolved := 1, connected := 1, sent := text }) :
    netMonitor.Holds (receiveResponse fuel fd)
      (fun outcome g' => ∀ o, outcome = some o → g₀.Done text o g') g := by
  have hstart : g.On fd ([] : Bytes).length ∧ g.Read fd [] 0 g :=
    ⟨h, ⟨h.list, h.fd, (Traffic.append_empty _).symm⟩⟩
  have hread : netMonitor.Holds (readToEnd fuel fd) _ g :=
    holds_readAll (readable_recv fd g) fuel (by decide) (by decide) (by decide) hstart
  apply hread.bind
  rintro (_ | _ | raw) g' hafter
  · apply Monitor.holds_pure
    rintro _ ⟨⟩
  · obtain ⟨data, hread⟩ := hafter
    refine holds_sys ?_ fun _ _ => ?_
    · exact hread.fd
    refine holds_failWith ⟨hread.list, rfl⟩
      (t := { resolved := 1, connected := 1, sent := text, received := data }) ?_ fun error => ?_
    · show g'.passed = _
      rw [hread.passed, hpassed, Traffic.append_assoc]
      simp [Traffic.append_eq]
    · have hunread : Exchanged text _ _ := .unread data error
      simpa [Traffic.append_eq] using hunread
  · have hread : g.Read fd raw 1 g' := hafter
    refine holds_sys ?_ fun _ _ => ?_
    · exact hread.fd
    apply Monitor.holds_pure
    rintro _ ⟨⟩
    refine ⟨⟨hread.list, rfl⟩, _, ?_, .answered raw⟩
    show g'.passed = _
    rw [hread.passed, hpassed, Traffic.append_assoc]
    simp [Traffic.append_eq]

/-- The text `http_request` sends. -/
def requestText (host : Bytes) (port : ℤ) (method path : Bytes) (body : Option Bytes) : Bytes :=
  snprintf (headCapacity host method path)
    (requestHead host port method path (body.getD []).length) ++ body.getD []

theorem holds_httpRequest (fuel : ℕ) (host : Bytes) (port : ℤ) (method path : Bytes)
    (body : Option Bytes) (timeout : ℤ) {g : Net} (hg : g.Idle) :
    netMonitor.Holds (httpRequest fuel host port method path body timeout)
      (fun outcome g' => ∀ o, outcome = some o →
        g.Done (requestText host port method path body) o g') g := by
  unfold httpRequest
  apply (holds_connectTo host port timeout hg).bind
  rintro (message | fd) g' hopen
  · apply Monitor.holds_pure
    rintro _ ⟨⟩
    exact hopen _
  · obtain ⟨hon, hopened⟩ := hopen
    apply (holds_sendRequest hon _ (body.getD [])).bind
    rintro (_ | _) g'' ⟨rest, hrest, hsent⟩
    · obtain ⟨sent, htext, hpassed⟩ := hsent.passed
      have hne : rest ≠ [] := by simpa using hrest
      refine holds_sys ?_ fun _ _ => ?_
      · exact hsent.on.fd
      refine holds_failWith ⟨hsent.on.list, rfl⟩
        (t := { resolved := 1, connected := 1, sent := sent }) ?_ fun error => ?_
      · show g''.passed = _
        rw [hpassed, hopened, Traffic.append_assoc]
        rfl
      · have hunsent : Exchanged (requestText host port method path body) _ _ :=
          .unsent sent rest error htext hne
        simpa [Traffic.append_eq] using hunsent
    · obtain rfl : rest = [] := hrest.1 rfl
      obtain ⟨sent, htext, hpassed⟩ := hsent.passed
      obtain rfl : sent = _ := (List.append_nil sent).symm.trans htext
      apply holds_receiveResponse fuel hsent.on
      rw [hpassed, hopened, Traffic.append_assoc]
      rfl

/-! ## The layers together -/

/-- The bytes a request is sent as. -/
def Request.text : Request → Bytes
  | .post p => requestText (p.dbc.host.getD []) p.dbc.port (lit "POST") (lit "/api/execute")
      (some (cstr p.body))
  | .get dbc path _ => requestText (dbc.host.getD []) dbc.port (lit "GET") path none
  | .delete dbc path _ => requestText (dbc.host.getD []) dbc.port (lit "DELETE") path none

theorem holds_sysCalls (fuel : ℕ) (q : Request) {g : Net} (hg : g.Idle) :
    netMonitor.Holds (q.sysCalls fuel) (fun outcome g' => ∀ o, outcome = some o → g.Done q.text o g')
      g := by
  cases q with
  | post p => exact holds_httpRequest fuel _ _ _ _ _ _ hg
  | get dbc path timeout => exact holds_httpRequest fuel _ _ _ _ _ _ hg
  | delete dbc path timeout => exact holds_httpRequest fuel _ _ _ _ _ _ hg

/-- A history of system calls. -/
abbrev SysHistory := List (SysCall × SysAnswer)

/-- What passes with the system calls of a history. -/
def trafficIn (s : SysHistory) : Traffic := (s.map fun e => e.1.traffic e.2).foldr (· ++ ·) {}

/-- The bytes the kernel took. -/
def sentIn (s : SysHistory) : Bytes := (trafficIn s).sent

/-- The bytes the kernel handed over. -/
def receivedIn (s : SysHistory) : Bytes := (trafficIn s).received

theorem passed_after (g : Net) (s : SysHistory) :
    (netMonitor.after g s).passed = g.passed ++ trafficIn s := by
  induction s generalizing g with
  | nil => exact (Traffic.append_empty _).symm
  | cons e s ih =>
    rw [Monitor.after, next_netMonitor, ih, passed_next, Traffic.append_assoc]
    rfl

/-- A kernel that takes no more than it is offered and writes as much as it says. -/
def KernelSound (s : SysHistory) : Prop := ∀ e ∈ s, e.1.KeptBy e.2

instance (s : SysHistory) : Decidable (KernelSound s) :=
  inferInstanceAs (Decidable (∀ e ∈ s, e.1.KeptBy e.2))

theorem admits_netMonitor_iff (g : Net) (s : SysHistory) : netMonitor.Admits g s ↔ KernelSound s := by
  induction s generalizing g with
  | nil => simp [Monitor.Admits, KernelSound]
  | cons e s ih =>
    rw [Monitor.Admits, ih]
    simp [KernelSound, netMonitor]

theorem KernelSound.of_append {s t : SysHistory} (h : KernelSound (s ++ t)) :
    KernelSound s ∧ KernelSound t :=
  ⟨fun e he => h e (List.mem_append_left _ he), fun e he => h e (List.mem_append_right _ he)⟩

/-- A process that holds nothing. -/
def Net.start : Net := ⟨false, none, false, 0, {}⟩

theorem idle_start : Net.start.Idle := ⟨rfl, rfl⟩

theorem trafficIn_append (s t : SysHistory) : trafficIn (s ++ t) = trafficIn s ++ trafficIn t := by
  have hstart := passed_after .start (s ++ t)
  rw [Monitor.after_append, passed_after, passed_after, Traffic.append_assoc] at hstart
  exact (Traffic.append_left_cancel hstart).symm

/-- The system calls `s` carry out the request `q`, and its caller is told `reply`: either the whole
request was sent and `reply` is what a stream that came to its end says, or it is the failure that the
calls told of. -/
def CarriesOut (q : Request) (reply : HttpReply) (s : SysHistory) : Prop :=
  ∃ outcome, Exchanged q.text (trafficIn s) outcome ∧ outcome.reply = some reply

/-- A connection that holds a session. -/
def heldDbc : Dbc :=
  { allocDbc with
    connected := true
    host := some (lit "localhost")
    sessionId := some (lit "a/b c")
    tracksSessions := 1 }

/-- A kernel that cannot connect to the first of two addresses, takes the request in two parts and
hands over the response in two. -/
def releaseAnswers : List SysAnswer :=
  let address : Address := ⟨2, 1, 6, lit "127.0.0.1"⟩
  [{ result := 0, addresses := [address, address] }, { result := 3 }, { result := 0 }, { result := 0 },
    { result := -1 }, { result := 0 }, { result := 3 }, { result := 0 }, { result := 0 },
    { result := 0 }, { result := 0 }, { result := 9 }, { result := 127 },
    { result := 12, data := lit "HTTP/1.1 200" }, { result := 4, data := lit "\r\n\r\n" },
    { result := 0 }, { result := 0 }]

/-- The system calls of a release against that kernel. -/
def releaseRun : SysHistory :=
  (((overSockets 20 (flProtoRelease heldDbc)).play releaseAnswers).getD default).1

theorem runs_releaseRun : Runs (overSockets 20 (flProtoRelease heldDbc)) releaseRun
    (some { heldDbc with sessionId := none }) :=
  runs_of_play _ releaseAnswers (by decide +kernel)

theorem kernelSound_releaseRun : KernelSound releaseRun := by decide +kernel

theorem holds_carryOut (fuel : ℕ) (q : Request) {g : Net} (hg : g.Idle) :
    netMonitor.Holds (q.carryOut fuel)
      (fun reply g' => ∀ x, reply = some x →
        g'.Idle ∧ ∃ outcome, g.Done q.text outcome g' ∧ outcome.reply = some x) g := by
  apply Monitor.Holds.map
  apply (holds_sysCalls fuel q hg).mono
  rintro outcome g' h x hx
  obtain ⟨o, ho, hreply⟩ := Option.bind_eq_some_iff.1 hx
  exact ⟨(h o ho).1, o, h o ho, hreply⟩

theorem forall_carriesOut {fuel : ℕ} {t : List (Request × HttpReply)} {ss : List SysHistory}
    (hcarries : Carries (Request.carryOut fuel) t ss) (hkernel : KernelSound ss.flatten) :
    List.Forall₂ (fun e s => CarriesOut e.1 e.2 s) t ss := by
  have hadmits := (admits_netMonitor_iff Net.start _).2 hkernel
  have hforall := Monitor.forall_carries (fun q g hg => holds_carryOut fuel q hg) hcarries idle_start hadmits
  refine hforall.imp fun e s h => ?_
  obtain ⟨g, outcome, ⟨_, passed, hpassed, hexchanged⟩, hreply⟩ := h
  obtain rfl := Traffic.append_left_cancel (hpassed.symm.trans (passed_after g s))
  exact ⟨outcome, hexchanged, hreply⟩

/-- Each request of a run over the sockets was carried out by system calls of its own. -/
theorem exists_carriesOut {α : Type} (fuel : ℕ) (p : Call α) {u : SysHistory} {a : α}
    (hrun : Runs (overSockets fuel p) u (some a)) (hkernel : KernelSound u) :
    ∃ t ss, ss.flatten = u ∧ Runs p t a ∧ List.Forall₂ (fun e s => CarriesOut e.1 e.2 s) t ss := by
  obtain ⟨t, ss, hcarries, rfl, hp⟩ := runs_carriedBy_iff.1 hrun
  exact ⟨t, ss, rfl, hp, forall_carriesOut hcarries hkernel⟩

/-- **A call of the driver over its sockets is a call over HTTP.** Whatever the kernel makes of the
single system calls, the run is one of the call, in which every request was carried out by system
calls of its own, one request after the other. -/
theorem overSockets_refines {α : Type} (fuel : ℕ) (p : Call α) {u : SysHistory} {a : α}
    (hrun : Runs (overSockets fuel p) u (some a)) (hkernel : KernelSound u) :
    ∃ t ss, ss.flatten = u ∧ Runs p t a ∧ List.Forall₂ (fun e s => CarriesOut e.1 e.2 s) t ss :=
  exists_carriesOut fuel p hrun hkernel

theorem overSockets_refines_release : ∃ t ss, ss.flatten = releaseRun ∧
    Runs (flProtoRelease heldDbc) t { heldDbc with sessionId := none } ∧
    List.Forall₂ (fun e s => CarriesOut e.1 e.2 s) t ss :=
  overSockets_refines 20 _ runs_releaseRun kernelSound_releaseRun

/-- **No descriptor or list is leaked or used after it is gone, and no call reads behind its buffer.**
In every run of a call of the driver, finished or not, each system call makes sense where it is made,
and where the call has come to its end nothing is held. -/
theorem overSockets_allowed {α : Type} (fuel : ℕ) (p : Call α) {u : SysHistory} {a : Option α}
    (hrun : Runs (overSockets fuel p) u a) (hkernel : KernelSound u) :
    (∀ before q r after, u = before ++ (q, r) :: after → (netMonitor.after .start before).Allows q) ∧
      (a.isSome → (netMonitor.after .start u).Idle) := by
  have hkeep : ∀ (q : Request) (g : Net), g.Idle → netMonitor.Holds (q.carryOut fuel)
      (fun reply g' => if reply.isSome then g'.Idle else True) g := by
    intro q g hg
    apply (holds_carryOut fuel q hg).mono
    rintro (_ | reply) g' h
    · trivial
    · exact (h reply rfl).1
  have hholds := Monitor.holds_carriedBy hkeep p idle_start
  obtain ⟨hallowed, hend⟩ := hholds.runs hrun ((admits_netMonitor_iff _ _).2 hkernel)
  refine ⟨hallowed, fun hsome => ?_⟩
  rwa [if_pos hsome] at hend

theorem overSockets_allowed_release :
    (∀ before q r after, releaseRun = before ++ (q, r) :: after →
      (netMonitor.after .start before).Allows q) ∧ (netMonitor.after .start releaseRun).Idle :=
  have h := overSockets_allowed 20 _ runs_releaseRun kernelSound_releaseRun
  ⟨h.1, h.2 rfl⟩

/-! ## Coming to an end -/

theorem fuel_le_of_receiveResponse {fuel : ℕ} {fd : ℤ} {u : SysHistory}
    (hrun : Runs (receiveResponse fuel fd) u none) : fuel ≤ u.length := by
  obtain ⟨t, t', raw, rfl, hread, hrest⟩ := runs_bind_iff.1 hrun
  rw [List.length_append]
  cases raw with
  | unfinished =>
    rw [← length_of_unfinished hread]
    exact Nat.le_add_right _ _
  | failed =>
    obtain ⟨_, _, _, rfl, _, hfail⟩ := runs_bind_iff.1 hrest
    obtain ⟨_, _, _, rfl, _, hend⟩ := runs_bind_iff.1 hfail
    cases (runs_pure_iff.1 hend).2
  | whole raw =>
    obtain ⟨_, _, _, rfl, _, hend⟩ := runs_bind_iff.1 hrest
    cases (runs_pure_iff.1 hend).2

theorem fuel_le_of_httpRequest {fuel : ℕ} {host : Bytes} {port : ℤ} {method path : Bytes}
    {body : Option Bytes} {timeout : ℤ} {u : SysHistory}
    (hrun : Runs (httpRequest fuel host port method path body timeout) u none) : fuel ≤ u.length := by
  obtain ⟨t, t', opened, rfl, _, hrest⟩ := runs_bind_iff.1 hrun
  cases opened with
  | error message => cases (runs_pure_iff.1 hrest).2
  | ok fd =>
    obtain ⟨s, s', sent, rfl, _, hrest⟩ := runs_bind_iff.1 hrest
    cases sent with
    | false =>
      obtain ⟨_, _, _, rfl, _, hfail⟩ := runs_bind_iff.1 hrest
      obtain ⟨_, _, _, rfl, _, hend⟩ := runs_bind_iff.1 hfail
      cases (runs_pure_iff.1 hend).2
    | true =>
      have hle := fuel_le_of_receiveResponse hrest
      simp only [List.length_append]
      omega

/-- **A call of the driver comes to its end.** A run that has made fewer system calls than it may
call `recv` is not waiting for more: either the call has returned, or a chunk of its last response
ran off the buffer. -/
theorem overSockets_returns {α : Type} (fuel : ℕ) (p : Call α) {u : SysHistory} {a : Option α}
    (hrun : Runs (overSockets fuel p) u a) (hfuel : u.length < fuel) :
    a.isSome ∨ ∃ q before s, u = before ++ s ∧
      Runs (Request.sysCalls fuel q) s (some .fault) := by
  cases a with
  | some a => exact Or.inl rfl
  | none =>
    right
    obtain ⟨q, before, s, rfl, hs⟩ := runs_carriedBy_none hrun
    refine ⟨q, before, s, rfl, ?_⟩
    obtain ⟨outcome, hs, houtcome⟩ := runs_map_iff.1 hs
    rw [List.length_append] at hfuel
    match outcome with
    | none =>
      have hle : fuel ≤ s.length := by
        cases q with
        | post p => exact fuel_le_of_httpRequest hs
        | get dbc path timeout => exact fuel_le_of_httpRequest hs
        | delete dbc path timeout => exact fuel_le_of_httpRequest hs
      omega
    | some .fault => exact hs
    | some (.failed message) => cases houtcome
    | some (.answered status body) => cases houtcome

theorem overSockets_returns_release : (some { heldDbc with sessionId := none }).isSome ∨
    ∃ q before s, releaseRun = before ++ s ∧ Runs (Request.sysCalls 20 q) s (some .fault) :=
  overSockets_returns 20 _ runs_releaseRun (by decide +kernel)

end FrostlakeOdbc
