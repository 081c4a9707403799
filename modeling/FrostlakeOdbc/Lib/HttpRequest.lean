import FrostlakeOdbc.Lib.HttpText

/-!
# HTTP/1.1 requests

The text of a request with a `Content-Length`, and a reader of it as a server has one. What is read of
a request is the request and what follows it (`readRequest_text`), and of any part of it that is not
all of it, nothing (`readRequest_cut`).
-/

namespace HttpText

open CString

/-! ## Reading -/

/-- What a reader makes of a request. -/
structure RequestParts where
  method : Bytes
  target : Bytes
  /-- Names, and the values with the blanks around them. -/
  fields : List (Bytes × Bytes)
  body : Bytes
  deriving DecidableEq

/-- The lines of a head; there are at most as many as the fuel. -/
def splitLines : ℕ → Bytes → List Bytes
  | 0, s => [s]
  | fuel + 1, s =>
      match find crlf s with
      | none => [s]
      | some n => s.take n :: splitLines fuel (s.drop (n + 2))

/-- A text up to the first byte `c`, and what follows that, with the byte. -/
def cutAt (c : UInt8) (s : Bytes) : Bytes × Bytes := (s.takeWhile (· ≠ c), s.dropWhile (· ≠ c))

/-- The method and the target of a request line. -/
def readRequestLine (l : Bytes) : Option (Bytes × Bytes) :=
  let (method, rest) := cutAt (ch ' ') l
  let (target, version) := cutAt (ch ' ') (rest.drop 1)
  if method ≠ [] ∧ target ≠ [] ∧ version = lit " HTTP/1.1" then some (method, target) else none

/-- The name and the value of a field. -/
def readField (l : Bytes) : Option (Bytes × Bytes) :=
  let (name, rest) := cutAt (ch ':') l
  if name ≠ [] ∧ rest ≠ [] then some (name, rest.drop 1) else none

/-- The number the first `Content-Length` field gives. -/
def declaredLength (fields : List (Bytes × Bytes)) : Option ℕ :=
  match fields.find? fun f => strcaseeq f.1 (lit "Content-Length") with
  | some f =>
      let digits := f.2.dropWhile isBlank
      if digits ≠ [] ∧ digits.all isDigit then some (leadingValue 10 0 digits) else none
  | none => none

/-- The request line and the fields of a head, and the length they declare. -/
def readHead (head : Bytes) : Option (Bytes × Bytes × List (Bytes × Bytes) × ℕ) :=
  match splitLines head.length head with
  | [] => none
  | line :: lines =>
      (readRequestLine line).bind fun (method, target) =>
        (lines.mapM readField).bind fun fields =>
          (declaredLength fields).map fun length => (method, target, fields, length)

/-- A request at the start of a text, and what is behind it. -/
def readRequest (s : Bytes) : Option (RequestParts × Bytes) :=
  match find (crlf ++ crlf) s with
  | none => none
  | some n =>
      (readHead (s.take n)).bind fun (method, target, fields, length) =>
        let rest := s.drop (n + 4)
        if rest.length < length then none
        else some (⟨method, target, fields, rest.take length⟩, rest.drop length)

/-! ## Writing -/

/-- A part of a request line: not empty, without blanks and line ends. -/
def Word (w : Bytes) : Prop := w ≠ [] ∧ ∀ c ∈ w, isLineByte c = true ∧ c ≠ ch ' '

/-- A word by looking at its bytes. -/
theorem word_of_all {w : Bytes} (hne : w ≠ [])
    (hall : (w.all fun c => isLineByte c && c ≠ ch ' ') = true) : Word w := by
  refine ⟨hne, fun c hc => ?_⟩
  have hbyte := Bool.and_eq_true_iff.1 (List.all_eq_true.1 hall c hc)
  exact ⟨hbyte.1, of_decide_eq_true hbyte.2⟩

/-- A request whose fields declare the length of its body. -/
structure Message where
  method : Bytes
  target : Bytes
  fields : List Field
  body : Bytes
  method_word : Word method
  target_word : Word target
  declared : declaredLength (fields.map fun f => (f.name, f.value)) = some body.length

namespace Message

def requestLine (m : Message) : Bytes := m.method ++ ch ' ' :: (m.target ++ lit " HTTP/1.1")

def lines (m : Message) : List Bytes := m.requestLine :: m.fields.map Field.line

def head (m : Message) : Bytes := joinLines m.lines

def text (m : Message) : Bytes := m.head ++ ((crlf ++ crlf) ++ m.body)

def parts (m : Message) : RequestParts :=
  { method := m.method
    target := m.target
    fields := m.fields.map fun f => (f.name, f.value)
    body := m.body }

end Message

/-! ## The round trip -/

theorem cutAt_append {c : UInt8} {a b : Bytes} (ha : c ∉ a) : cutAt c (a ++ c :: b) = (a, c :: b) := by
  have hall : ∀ d ∈ a, decide (d ≠ c) = true := fun d hd =>
    decide_eq_true fun h => ha (h ▸ hd)
  have hstop := takeWhile_append_stop hall (by simp) (s := c :: b)
  rw [cutAt, hstop.1, hstop.2]

theorem splitLines_joinLines {l : Bytes} {ls : List Bytes} (hls : ∀ k ∈ l :: ls, Line k) {fuel : ℕ}
    (hfuel : ls.length ≤ fuel) : splitLines fuel (joinLines (l :: ls)) = l :: ls := by
  induction ls generalizing l fuel with
  | nil =>
    have hnone := find_crlf_of_line (hls l List.mem_cons_self)
    cases fuel with
    | zero => rfl
    | succ fuel => simp [joinLines, splitLines, hnone]
  | cons m ls ih =>
    cases fuel with
    | zero => simp at hfuel
    | succ fuel =>
      have hfind := find_crlf_line (hls l List.mem_cons_self) (joinLines (m :: ls))
      have htail := ih (fun k hk => hls k (List.mem_cons_of_mem _ hk)) (Nat.le_of_succ_le_succ hfuel)
      have hdrop : (l ++ (crlf ++ joinLines (m :: ls))).drop (l.length + 2) = joinLines (m :: ls) := by
        rw [← List.drop_drop, List.drop_left]
        rfl
      rw [joinLines, splitLines]
      simp only [hfind, List.take_left, hdrop, htail]

theorem readField_line (f : Field) : readField f.line = some (f.name, f.value) := by
  have hname : ch ':' ∉ f.name := fun h => (f.name_bytes _ h).2 rfl
  unfold readField
  rw [Field.line, cutAt_append hname]
  simp [f.name_ne_nil]

theorem not_isBlank_of_isDigit {c : UInt8} (h : isDigit c = true) : isBlank c = false := by
  revert h
  apply forall_byte (P := fun c => isDigit c = true → isBlank c = false)
  decide +kernel

theorem declaredLength_of_find {fields : List (Bytes × Bytes)} {f : Bytes × Bytes} {blanks digits : Bytes}
    (hfind : (fields.find? fun f => strcaseeq f.1 (lit "Content-Length")) = some f)
    (hf : f.2 = blanks ++ digits) (hblanks : Blanks blanks) (hne : digits ≠ [])
    (hdigits : ∀ c ∈ digits, isDigit c = true) :
    declaredLength fields = some (leadingValue 10 0 digits) := by
  have hdrop : f.2.dropWhile isBlank = digits := by
    rw [hf]
    refine (takeWhile_append_stop hblanks fun c hc => ?_).2
    exact not_isBlank_of_isDigit (hdigits c (List.mem_of_mem_head? hc))
  have hall : digits.all isDigit = true := List.all_eq_true.2 hdigits
  simp only [declaredLength, hfind, hdrop]
  exact if_pos ⟨hne, hall⟩

theorem mapM_readField (fs : List Field) :
    (fs.map Field.line).mapM readField = some (fs.map fun f => (f.name, f.value)) := by
  induction fs with
  | nil => rfl
  | cons f fs ih => simp [List.mapM_cons, readField_line, ih]

namespace Message

variable (m : Message)

theorem readRequestLine_requestLine : readRequestLine m.requestLine = some (m.method, m.target) := by
  have hmethod : ch ' ' ∉ m.method := fun h => (m.method_word.2 _ h).2 rfl
  have htarget : ch ' ' ∉ m.target := fun h => (m.target_word.2 _ h).2 rfl
  have hversion : lit " HTTP/1.1" = ch ' ' :: lit "HTTP/1.1" := by decide
  unfold readRequestLine requestLine
  rw [cutAt_append hmethod, hversion]
  simp only [List.drop_one, List.tail_cons]
  rw [cutAt_append htarget]
  simp [m.method_word.1, m.target_word.1]

theorem line_requestLine : Line m.requestLine := by
  refine ⟨by simp [requestLine], fun c hc => ?_⟩
  have hversion : ∀ c ∈ lit " HTTP/1.1", isLineByte c = true := forall_mem_of_all (by decide)
  rcases List.mem_append.1 hc with hc | hc
  · exact (m.method_word.2 c hc).1
  · rcases List.mem_cons.1 hc with rfl | hc
    · decide
    · rcases List.mem_append.1 hc with hc | hc
      · exact (m.target_word.2 c hc).1
      · exact hversion c hc

theorem line_of_mem {l : Bytes} (hl : l ∈ m.lines) : Line l := by
  rcases List.mem_cons.1 hl with rfl | hl
  · exact m.line_requestLine
  · obtain ⟨f, -, rfl⟩ := List.mem_map.1 hl
    exact f.line_line

theorem length_lines_le (ls : List Bytes) (hls : ∀ l ∈ ls, Line l) :
    ls.length ≤ (joinLines ls).length := by
  induction ls with
  | nil => exact Nat.zero_le _
  | cons l ls ih =>
    have hl := List.length_pos_iff.2 (hls l List.mem_cons_self).1
    have htail := ih fun k hk => hls k (List.mem_cons_of_mem _ hk)
    cases ls with
    | nil => exact hl
    | cons k ls =>
      simp only [joinLines, List.length_append, List.length_cons] at htail ⊢
      omega

theorem readHead_head :
    readHead m.head = some (m.method, m.target, m.fields.map (fun f => (f.name, f.value)),
      m.body.length) := by
  have hlines : ∀ l ∈ m.lines, Line l := fun l hl => m.line_of_mem hl
  have hle := length_lines_le m.lines hlines
  have hsplit : splitLines m.head.length m.head = m.lines :=
    splitLines_joinLines hlines (Nat.le_of_succ_le hle)
  unfold readHead
  rw [hsplit, lines]
  simp only [readRequestLine_requestLine, mapM_readField, m.declared, Option.bind_some,
    Option.map_some]

theorem find_head (x : Bytes) :
    find (crlf ++ crlf) (m.head ++ ((crlf ++ crlf) ++ x)) = some m.head.length :=
  find_emptyLine (List.cons_ne_nil _ _) (fun _ hl => m.line_of_mem hl) x

/-- What a reader makes of a complete head and `x` behind it. -/
theorem readRequest_head (x : Bytes) :
    readRequest (m.head ++ ((crlf ++ crlf) ++ x)) =
      if x.length < m.body.length then none
      else some ({ m.parts with body := x.take m.body.length }, x.drop m.body.length) := by
  have hdrop : (m.head ++ ((crlf ++ crlf) ++ x)).drop (m.head.length + 4) = x := by
    rw [← List.drop_drop, List.drop_left]
    rfl
  unfold readRequest
  simp only [find_head, List.take_left, readHead_head, Option.bind_some, hdrop]
  rfl

theorem readRequest_text (x : Bytes) : readRequest (m.text ++ x) = some (m.parts, x) := by
  have happend : m.text ++ x = m.head ++ ((crlf ++ crlf) ++ (m.body ++ x)) := by
    simp [text, List.append_assoc]
  rw [happend, readRequest_head, if_neg (by simp), List.take_left, List.drop_left]
  rfl

theorem readRequest_cut {p : Bytes} (hp : p <+: m.text) (hne : p ≠ m.text) :
    readRequest p = none := by
  obtain ⟨rest, hrest⟩ := hp
  cases hfind : find (crlf ++ crlf) p with
  | none => simp [readRequest, hfind]
  | some n =>
    -- the empty line is the one behind the head, so the head is there and the body is cut
    have hwhole := find_append hfind rest
    rw [hrest, text, find_head] at hwhole
    have hn := find_length hfind
    have hlen : (m.head ++ (crlf ++ crlf)).length ≤ p.length := by
      rw [List.length_append, Option.some.inj hwhole]
      exact hn
    have hhead : m.head ++ (crlf ++ crlf) <+: p :=
      List.prefix_of_prefix_length_le ⟨m.body, List.append_assoc _ _ _⟩ ⟨rest, hrest⟩ hlen
    obtain ⟨x, rfl⟩ := hhead
    have hbody : x ++ rest = m.body := by
      have htext : m.head ++ (crlf ++ crlf) ++ (x ++ rest) = m.head ++ (crlf ++ crlf) ++ m.body := by
        rw [← List.append_assoc, hrest, text, ← List.append_assoc]
      exact List.append_cancel_left htext
    have hrest_ne : rest ≠ [] := by
      rintro rfl
      rw [List.append_nil] at hrest
      exact hne hrest
    have hshort : x.length < m.body.length := by
      rw [← hbody, List.length_append]
      have := List.length_pos_iff.2 hrest_ne
      omega
    rw [List.append_assoc, readRequest_head, if_pos hshort]

end Message

/-! ## Percent-encoding -/

/-- A part of a target with its escapes undone. -/
def percentDecode : Bytes → Option Bytes
  | [] => some []
  | c :: rest =>
      if c ≠ ch '%' then (percentDecode rest).map (c :: ·)
      else
        match rest with
        | high :: low :: rest =>
            match digitValue 16 high, digitValue 16 low with
            | some a, some b => (percentDecode rest).map (UInt8.ofNat (a * 16 + b) :: ·)
            | _, _ => none
        | _ => none

/-- `e` stands for the byte `c` in a target. -/
def EscapeOf (c : UInt8) (e : Bytes) : Prop :=
  (e = [c] ∧ c ≠ ch '%') ∨ ∃ high low a b, e = [ch '%', high, low] ∧ digitValue 16 high = some a ∧
    digitValue 16 low = some b ∧ UInt8.ofNat (a * 16 + b) = c

theorem EscapeOf.percentDecode {c : UInt8} {e : Bytes} (h : EscapeOf c e) (rest : Bytes) :
    percentDecode (e ++ rest) = (percentDecode rest).map (c :: ·) := by
  rcases h with ⟨rfl, hc⟩ | ⟨high, low, a, b, rfl, ha, hb, hc⟩
  · rw [List.singleton_append, HttpText.percentDecode.eq_def]
    exact if_pos hc
  · simp [HttpText.percentDecode, ha, hb, hc]

/-- An encoding that escapes byte by byte is undone. -/
theorem percentDecode_flatMap {escape : UInt8 → Bytes} (h : ∀ c, EscapeOf c (escape c)) (s : Bytes) :
    percentDecode (s.flatMap escape) = some s := by
  induction s with
  | nil => rfl
  | cons c s ih => rw [List.flatMap_cons, (h c).percentDecode, ih, Option.map_some]

end HttpText
