import FrostlakeOdbc.Lib.CString

/-!
# HTTP/1.1 responses

The text of a response: a status line, header fields and a body that a `Content-Length` or chunks
frame. The names of fields do not depend on case.
-/

namespace HttpText

open CString

def crlf : Bytes := [ch '\r', ch '\n']

/-- A byte that may stand in a line. -/
def isLineByte (c : UInt8) : Bool := c ≠ 0 && c ≠ ch '\r' && c ≠ ch '\n'

def isBlank (c : UInt8) : Bool := c = ch ' ' || c = ch '\t'

/-- Blanks around the value of a field. -/
def Blanks (s : Bytes) : Prop := ∀ c ∈ s, isBlank c = true

/-- Lines with a line end between each two of them. -/
def joinLines : List Bytes → Bytes
  | [] => []
  | [l] => l
  | l :: m :: ls => l ++ (crlf ++ joinLines (m :: ls))

/-- A header field. -/
structure Field where
  name : Bytes
  value : Bytes
  name_ne_nil : name ≠ []
  name_bytes : ∀ c ∈ name, isLineByte c = true ∧ c ≠ ch ':'
  value_bytes : ∀ c ∈ value, isLineByte c = true

def Field.line (f : Field) : Bytes := f.name ++ ch ':' :: f.value

/-- Everything of a response before its body. -/
structure Head where
  digits : Bytes
  reason : Bytes
  fields : List Field
  digits_length : digits.length = 3
  digits_bytes : ∀ c ∈ digits, isDigit c = true
  reason_bytes : ∀ c ∈ reason, isLineByte c = true

namespace Head

/-- The status code. -/
def status (h : Head) : ℕ := leadingValue 10 0 h.digits

def statusLine (h : Head) : Bytes := lit "HTTP/1.1 " ++ (h.digits ++ ch ' ' :: h.reason)

def lines (h : Head) : List Bytes := h.statusLine :: h.fields.map Field.line

/-- The lines of a head and the empty line that ends it. -/
def text (h : Head) : Bytes := joinLines h.lines ++ (crlf ++ crlf)

/-- The first field of a name. -/
def field? (h : Head) (name : Bytes) : Option Field := h.fields.find? fun f => strcaseeq f.name name

end Head

/-- `s` writes `n` in digits of a base. -/
structure Numeral (base n : ℕ) (s : Bytes) : Prop where
  ne_nil : s ≠ []
  digits : ∀ c ∈ s, (digitValue base c).isSome = true
  value : leadingValue base 0 s = n

/-- `s` is `body` in chunks that are not empty, closed by a chunk of size zero and what may follow
that. -/
inductive Chunks : Bytes → Bytes → Prop where
  | last {size trailer : Bytes} (hsize : Numeral 16 0 size) :
      Chunks [] (size ++ (crlf ++ trailer))
  | cons {data size body s : Bytes} (hdata : data ≠ []) (hsize : Numeral 16 data.length size)
      (hrest : Chunks body s) : Chunks (data ++ body) (size ++ (crlf ++ (data ++ (crlf ++ s))))

/-- What may stand between a chunk size and the end of its line: nothing, or an extension behind a
semicolon. -/
def Extension (ext : Bytes) : Prop :=
  ext = [] ∨ ext.head? = some (ch ';') ∧ find crlf (ext ++ crlf) = some ext.length

/-- `s` begins with the line of the chunk size `n`, and `tail` follows. -/
def SizeLine (s : Bytes) (n : ℕ) (tail : Bytes) : Prop :=
  ∃ size ext, Numeral 16 n size ∧ Extension ext ∧ s = size ++ (ext ++ (crlf ++ tail))

/-- `s` begins with `body` in chunks, with extensions, that are not empty, closed by a chunk of size
zero. -/
inductive CompleteChunks : Bytes → Bytes → Prop where
  | last {s trailer : Bytes} (hsize : SizeLine s 0 trailer) : CompleteChunks [] s
  | cons {data body s rest : Bytes} (hdata : data ≠ [])
      (hsize : SizeLine s data.length (data ++ (crlf ++ rest))) (hrest : CompleteChunks body rest) :
      CompleteChunks (data ++ body) s

/-- `s` is a complete response with the head `h` and the body `body`. -/
inductive Framed (h : Head) (body : Bytes) : Bytes → Prop where
  | contentLength {f : Field} {a ds b : Bytes}
      (hnone : h.field? (lit "Transfer-Encoding") = none)
      (hfield : h.field? (lit "Content-Length") = some f)
      (hvalue : f.value = a ++ (ds ++ b)) (ha : Blanks a) (hds : Numeral 10 body.length ds)
      (hb : Blanks b) : Framed h body (h.text ++ body)
  | chunked {f : Field} {a word b s : Bytes}
      (hfield : h.field? (lit "Transfer-Encoding") = some f)
      (hvalue : f.value = a ++ (word ++ b)) (ha : Blanks a)
      (hword : strcaseeq word (lit "chunked") = true) (hb : Blanks b) (hs : Chunks body s) :
      Framed h body (h.text ++ s)

theorem Chunks.length_le {body s : Bytes} (h : Chunks body s) : body.length ≤ s.length := by
  induction h with
  | last => exact Nat.zero_le _
  | cons _ _ _ ih =>
    simp only [List.length_append]
    omega

/-! ## The line of a chunk size -/

theorem Extension.find {ext : Bytes} (h : Extension ext) (x : Bytes) :
    find crlf (ext ++ (crlf ++ x)) = some ext.length := by
  rcases h with rfl | ⟨-, hfind⟩
  · exact find_of_prefix (List.prefix_append _ _)
  · rw [← List.append_assoc]
    exact find_append hfind x

/-- A line: the first line end behind it is where it ends. -/
def IsLine (line : Bytes) : Prop := find crlf (line ++ crlf) = some line.length

theorem IsLine.find {line : Bytes} (h : IsLine line) (x : Bytes) :
    find crlf (line ++ (crlf ++ x)) = some line.length := by
  rw [← List.append_assoc]
  exact find_append h x

theorem exists_line {s : Bytes} {n : ℕ} (h : find crlf s = some n) :
    ∃ line tail, s = line ++ (crlf ++ tail) ∧ IsLine line := by
  obtain ⟨tail, htail⟩ := prefix_drop_of_find h
  have hlen := find_length h
  have hline : (s.take n).length = n := by
    rw [List.length_take]
    omega
  have hsplit : s = s.take n ++ (crlf ++ tail) := by rw [htail, List.take_append_drop]
  refine ⟨s.take n, tail, hsplit, ?_⟩
  unfold IsLine
  rw [hsplit, ← List.append_assoc] at h
  rw [hline]
  exact find_of_append h (by rw [List.length_append, hline])

/-- A text has one first line. -/
theorem IsLine.unique {line line' tail tail' : Bytes} (h : IsLine line) (h' : IsLine line')
    (heq : line ++ (crlf ++ tail) = line' ++ (crlf ++ tail')) : line = line' ∧ tail = tail' := by
  have hfind := h.find tail
  rw [heq, h'.find tail'] at hfind
  obtain ⟨hline, hrest⟩ := List.append_inj heq (Option.some.inj hfind).symm
  exact ⟨hline, List.append_cancel_left hrest⟩

/-- `line` is the size `n` in digits, and an extension. -/
def IsSizeLine (n : ℕ) (line : Bytes) : Prop :=
  ∃ size ext, Numeral 16 n size ∧ Extension ext ∧ line = size ++ ext

theorem IsSizeLine.isLine {line : Bytes} {n : ℕ} (h : IsSizeLine n line) : IsLine line := by
  obtain ⟨size, ext, hsize, hext, rfl⟩ := h
  have hno : ∀ c ∈ size, c ≠ ch '\r' := fun c hc => (digit_facts (hsize.digits c hc)).2.2.2.2.2
  have hskip : CString.find crlf (size ++ (ext ++ (crlf ++ []))) = _ := find_append_of_forall hno
  have hfind := hext.find []
  rw [← crlf] at hskip
  rw [hfind, List.append_nil] at hskip
  unfold IsLine
  rw [List.append_assoc, hskip, List.length_append, Option.map_some, Nat.add_comm]

theorem sizeLine_iff {s tail : Bytes} {n : ℕ} :
    SizeLine s n tail ↔ ∃ line, IsSizeLine n line ∧ s = line ++ (crlf ++ tail) := by
  constructor
  · rintro ⟨size, ext, hsize, hext, rfl⟩
    exact ⟨_, ⟨size, ext, hsize, hext, rfl⟩, (List.append_assoc ..).symm⟩
  · rintro ⟨line, ⟨size, ext, hsize, hext, rfl⟩, rfl⟩
    exact ⟨size, ext, hsize, hext, List.append_assoc ..⟩

/-- The size line of a text is its first line. -/
theorem sizeLine_append_iff {line tail tail' : Bytes} {n : ℕ} (hline : IsLine line) :
    SizeLine (line ++ (crlf ++ tail)) n tail' ↔ IsSizeLine n line ∧ tail' = tail := by
  rw [sizeLine_iff]
  constructor
  · rintro ⟨line', hsize, heq⟩
    obtain ⟨rfl, rfl⟩ := hline.unique hsize.isLine heq
    exact ⟨hsize, rfl⟩
  · rintro ⟨hsize, rfl⟩
    exact ⟨line, hsize, rfl⟩

/-- `strtol` reads the size of a line, up to the limit of a `long`. -/
theorem SizeLine.strtol {s tail : Bytes} {n : ℕ} (h : SizeLine s n tail) :
    strtol 16 s = min longMax n := by
  obtain ⟨size, ext, hsize, hext, rfl⟩ := h
  have hrest : ∀ c ∈ (ext ++ (crlf ++ tail)).head?,
      digitValue 16 c = none ∧ c ≠ ch 'x' ∧ c ≠ ch 'X' := by
    intro c hc
    have hcases : c = ch ';' ∨ c = ch '\r' := by
      rcases hext with rfl | ⟨hhead, -⟩
      · cases hc
        exact .inr rfl
      · rw [List.head?_append, hhead] at hc
        cases hc
        exact .inl rfl
    rcases hcases with rfl | rfl <;> decide
  rw [strtol_digits (.inr rfl) hsize.ne_nil hsize.digits hrest, hsize.value]

/-! ## Where the head ends -/

theorem ne_cr_of_isLineByte {c : UInt8} (h : isLineByte c = true) : c ≠ ch '\r' := by
  simp only [isLineByte, Bool.and_eq_true, decide_eq_true_eq] at h
  exact h.1.2

theorem ne_zero_of_isLineByte {c : UInt8} (h : isLineByte c = true) : c ≠ 0 := by
  simp only [isLineByte, Bool.and_eq_true, decide_eq_true_eq] at h
  exact h.1.1

/-- A line of a head: not empty, and with no byte that ends a line or a text. -/
def Line (l : Bytes) : Prop := l ≠ [] ∧ ∀ c ∈ l, isLineByte c = true

theorem Field.line_line (f : Field) : Line f.line := by
  refine ⟨by simp [Field.line], fun c hc => ?_⟩
  rcases List.mem_append.1 hc with hc | hc
  · exact (f.name_bytes c hc).1
  · rcases List.mem_cons.1 hc with rfl | hc
    · decide
    · exact f.value_bytes c hc

theorem isLineByte_of_isDigit {c : UInt8} (h : isDigit c = true) : isLineByte c = true := by
  revert h
  apply forall_byte (P := fun c => isDigit c = true → isLineByte c = true)
  decide +kernel

theorem Head.line_statusLine (h : Head) : Line h.statusLine := by
  refine ⟨by simp [Head.statusLine, lit], fun c hc => ?_⟩
  rcases List.mem_append.1 hc with hc | hc
  · have hbytes : ∀ c ∈ lit "HTTP/1.1 ", isLineByte c = true := forall_mem_of_all (by decide)
    exact hbytes c hc
  · rcases List.mem_append.1 hc with hc | hc
    · exact isLineByte_of_isDigit (h.digits_bytes c hc)
    · rcases List.mem_cons.1 hc with rfl | hc
      · decide
      · exact h.reason_bytes c hc

theorem Head.line_of_mem (h : Head) {l : Bytes} (hl : l ∈ h.lines) : Line l := by
  rcases List.mem_cons.1 hl with rfl | hl
  · exact h.line_statusLine
  · obtain ⟨f, -, rfl⟩ := List.mem_map.1 hl
    exact f.line_line

theorem joinLines_head {l : Bytes} (ls : List Bytes) (hl : Line l) :
    ∃ c s, joinLines (l :: ls) = c :: s ∧ isLineByte c = true := by
  obtain ⟨c, s, rfl⟩ := List.exists_cons_of_ne_nil hl.1
  have hc := hl.2 c (by simp)
  cases ls with
  | nil => exact ⟨c, s, rfl, hc⟩
  | cons m ls => exact ⟨c, s ++ (crlf ++ joinLines (m :: ls)), rfl, hc⟩

theorem find_crlf_line {l : Bytes} (hl : Line l) (x : Bytes) :
    find crlf (l ++ (crlf ++ x)) = some l.length := by
  have hno : ∀ c ∈ l, c ≠ ch '\r' := fun c hc => ne_cr_of_isLineByte (hl.2 c hc)
  have h0 : find crlf (crlf ++ x) = some 0 := find_of_prefix (List.prefix_append _ _)
  rw [crlf] at h0 ⊢
  rw [find_append_of_forall hno, h0, Option.map_some, Nat.zero_add]

theorem find_crlf_of_line {l : Bytes} (hl : Line l) : find crlf l = none := by
  have hno : ∀ c ∈ l, c ≠ ch '\r' := fun c hc => ne_cr_of_isLineByte (hl.2 c hc)
  have hskip : find (ch '\r' :: [ch '\n']) (l ++ []) = _ := find_append_of_forall hno
  rw [List.append_nil] at hskip
  rw [crlf, hskip]
  rfl

/-- The empty line is first found where the lines end. -/
theorem find_emptyLine {ls : List Bytes} (hne : ls ≠ []) (hls : ∀ l ∈ ls, Line l) (x : Bytes) :
    find (crlf ++ crlf) (joinLines ls ++ ((crlf ++ crlf) ++ x)) = some (joinLines ls).length := by
  induction ls with
  | nil => exact absurd rfl hne
  | cons l ls ih =>
    have hl := hls l (by simp)
    have hno : ∀ c ∈ l, c ≠ ch '\r' := fun c hc => ne_cr_of_isLineByte (hl.2 c hc)
    have hpat : crlf ++ crlf = ch '\r' :: [ch '\n', ch '\r', ch '\n'] := rfl
    cases ls with
    | nil =>
      have h0 : find (crlf ++ crlf) ((crlf ++ crlf) ++ x) = some 0 :=
        find_of_prefix (List.prefix_append _ _)
      rw [hpat] at h0 ⊢
      rw [joinLines, find_append_of_forall hno, h0, Option.map_some, Nat.zero_add]
    | cons m ls =>
      have htail := ih (List.cons_ne_nil _ _) fun k hk => hls k (by simp [hk])
      obtain ⟨c, s, hj, hc⟩ := joinLines_head ls (hls m (by simp))
      -- the line that follows a line end starts with a byte, so no empty line is there
      have hskip : find (crlf ++ crlf) (crlf ++ (joinLines (m :: ls) ++ ((crlf ++ crlf) ++ x))) =
          some ((joinLines (m :: ls)).length + 2) := by
        have h₁ : ¬crlf ++ crlf <+:
            ch '\r' :: (ch '\n' :: (joinLines (m :: ls) ++ ((crlf ++ crlf) ++ x))) := by
          rw [hj, hpat]
          intro h
          have := (List.cons_prefix_cons.1 (List.cons_prefix_cons.1 (List.cons_prefix_cons.1 h).2).2).1
          exact ne_cr_of_isLineByte hc this.symm
        have h₂ : ¬crlf ++ crlf <+: ch '\n' :: (joinLines (m :: ls) ++ ((crlf ++ crlf) ++ x)) := by
          intro h
          exact absurd (List.cons_prefix_cons.1 h).1 (by decide)
        show find (crlf ++ crlf)
          (ch '\r' :: ch '\n' :: (joinLines (m :: ls) ++ ((crlf ++ crlf) ++ x))) = _
        rw [find_cons_of_not h₁, find_cons_of_not h₂, htail]
        rfl
      rw [joinLines, List.append_assoc, List.append_assoc, hpat, find_append_of_forall hno, ← hpat,
        hskip, Option.map_some]
      simp only [List.length_append]
      have : crlf.length = 2 := rfl
      congr 1
      omega

end HttpText
