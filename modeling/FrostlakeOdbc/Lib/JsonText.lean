import FrostlakeOdbc.Lib.CString

/-!
# JSON texts

The values of JSON and the texts that spell them. A string value is the UTF-8 encoding of what it
says, and a number is kept as the lexeme it is written with.

`Spells str n v s` says that `s` spells the value `v` with arrays and objects nested at most `n`
deep. How a string may be spelled is a parameter `str`: `StringText` is every legal spelling of a
list of characters, `StringBody` only asks that the body of the string is well formed.
-/

namespace JsonText

open CString

inductive Value : Type where
  | null
  | bool (b : Bool)
  | number (lexeme : Bytes)
  | string (text : Bytes)
  | array (items : List Value)
  | object (members : List (Bytes × Value))

/-- The UTF-8 encoding of a list of characters. -/
def utf8 (cs : List Char) : Bytes := cs.flatMap String.utf8EncodeChar

/-! ## White space and numbers -/

def isWs (c : UInt8) : Bool := c = ch ' ' || c = ch '\t' || c = ch '\n' || c = ch '\r'

def Ws (s : Bytes) : Prop := ∀ c ∈ s, isWs c = true

theorem ws_nil : Ws [] := fun _ h => by simp at h

def Digits (s : Bytes) : Prop := s ≠ [] ∧ ∀ c ∈ s, isDigit c = true

/-- A number lexeme: a minus sign or none, digits without a leading zero, then a fraction and an
exponent, each of which may be absent. -/
structure Number (s : Bytes) : Prop where
  parts : ∃ sign int frac exp : Bytes, s = sign ++ (int ++ (frac ++ exp)) ∧
    (sign = [] ∨ sign = [ch '-']) ∧
    (Digits int ∧ (int.head? = some (ch '0') → int = [ch '0'])) ∧
    (frac = [] ∨ ∃ ds, Digits ds ∧ frac = ch '.' :: ds) ∧
    (exp = [] ∨ ∃ e sgn ds, (e = ch 'e' ∨ e = ch 'E') ∧
      (sgn = [] ∨ sgn = [ch '+'] ∨ sgn = [ch '-']) ∧ Digits ds ∧ exp = e :: (sgn ++ ds))

/-- The bytes a number lexeme is made of. -/
def isNumberByte (c : UInt8) : Bool :=
  isDigit c || c = ch '.' || c = ch 'e' || c = ch 'E' || c = ch '+' || c = ch '-'

namespace Number

variable {s : Bytes}

theorem bytes (h : Number s) : ∀ c ∈ s, isNumberByte c = true := by
  obtain ⟨sign, int, frac, exp, rfl, hsign, ⟨hint, -⟩, hfrac, hexp⟩ := h.parts
  have digits : ∀ {ds : Bytes}, Digits ds → ∀ c ∈ ds, isNumberByte c = true :=
    fun hds c hc => by simp [isNumberByte, hds.2 c hc]
  intro c hc
  simp only [List.mem_append] at hc
  rcases hc with hc | hc | hc | hc
  · rcases hsign with rfl | rfl
    · simp at hc
    · obtain rfl := List.mem_singleton.1 hc
      decide
  · exact digits hint c hc
  · rcases hfrac with rfl | ⟨ds, hds, rfl⟩
    · simp at hc
    · rcases List.mem_cons.1 hc with rfl | hc
      · decide
      · exact digits hds c hc
  · rcases hexp with rfl | ⟨e, sgn, ds, he, hsgn, hds, rfl⟩
    · simp at hc
    · rcases List.mem_cons.1 hc with rfl | hc
      · rcases he with rfl | rfl <;> decide
      · rcases List.mem_append.1 hc with hc | hc
        · rcases hsgn with rfl | rfl | rfl
          · simp at hc
          · obtain rfl := List.mem_singleton.1 hc
            decide
          · obtain rfl := List.mem_singleton.1 hc
            decide
        · exact digits hds c hc

/-- A number lexeme starts with a digit or a minus sign. -/
theorem head (h : Number s) : ∃ c rest, s = c :: rest ∧ (isDigit c = true ∨ c = ch '-') := by
  obtain ⟨sign, int, frac, exp, rfl, hsign, ⟨⟨hne, hint⟩, -⟩, -, -⟩ := h.parts
  rcases hsign with rfl | rfl
  · obtain ⟨c, rest, rfl⟩ := List.exists_cons_of_ne_nil hne
    exact ⟨c, rest ++ (frac ++ exp), rfl, Or.inl (hint c (by simp))⟩
  · exact ⟨ch '-', int ++ (frac ++ exp), rfl, Or.inr rfl⟩

end Number

/-! ## Strings -/

/-- The character a two-byte escape stands for. -/
def shortEscape (e : UInt8) : Option Char :=
  if e = ch '"' then some '"'
  else if e = ch '\\' then some '\\'
  else if e = ch '/' then some '/'
  else if e = ch 'b' then some '\x08'
  else if e = ch 'f' then some '\x0c'
  else if e = ch 'n' then some '\n'
  else if e = ch 'r' then some '\r'
  else if e = ch 't' then some '\t'
  else none

/-- Four hexadecimal digits, of either case, that write `n`. -/
def Hex4 (n : ℕ) (s : Bytes) : Prop :=
  ∃ a b c d va vb vc vd, s = [a, b, c, d] ∧ digitValue 16 a = some va ∧ digitValue 16 b = some vb ∧
    digitValue 16 c = some vc ∧ digitValue 16 d = some vd ∧
    n = ((va * 16 + vb) * 16 + vc) * 16 + vd

/-- The legal ways to write one character in a string. -/
inductive CharText : Char → Bytes → Prop where
  | raw {c : Char} (hc : 0x20 ≤ c.toNat) (hq : c ≠ '"') (hb : c ≠ '\\') :
      CharText c (String.utf8EncodeChar c)
  | short {c : Char} {e : UInt8} (h : shortEscape e = some c) : CharText c [ch '\\', e]
  | hex {c : Char} {s : Bytes} (h : Hex4 c.toNat s) : CharText c (ch '\\' :: ch 'u' :: s)
  | pair {c : Char} {hi lo : Bytes} (hc : 0x10000 ≤ c.toNat)
      (hhi : Hex4 (0xD800 + (c.toNat - 0x10000) / 0x400) hi)
      (hlo : Hex4 (0xDC00 + (c.toNat - 0x10000) % 0x400) lo) :
      CharText c (ch '\\' :: ch 'u' :: (hi ++ ch '\\' :: ch 'u' :: lo))

/-- The legal ways to write a list of characters between the quotes of a string. -/
inductive StringText : List Char → Bytes → Prop where
  | nil : StringText [] []
  | cons {c : Char} {cs : List Char} {s t : Bytes} (hc : CharText c s) (ht : StringText cs t) :
      StringText (c :: cs) (s ++ t)

/-- A well-formed body of a string: bytes that stand for themselves, and escapes. -/
inductive StringBody : Bytes → Prop where
  | nil : StringBody []
  | raw {c : UInt8} {t : Bytes} (hc : 0x20 ≤ c) (hq : c ≠ ch '"') (hb : c ≠ ch '\\')
      (ht : StringBody t) : StringBody (c :: t)
  | short {e : UInt8} {c : Char} {t : Bytes} (h : shortEscape e = some c) (ht : StringBody t) :
      StringBody (ch '\\' :: e :: t)
  | hex {n : ℕ} {s t : Bytes} (h : Hex4 n s) (ht : StringBody t) :
      StringBody (ch '\\' :: ch 'u' :: (s ++ t))

/-! ## Values -/

def quoted (body : Bytes) : Bytes := ch '"' :: (body ++ [ch '"'])

/-- `P` with white space around it. -/
def Padded (P : Bytes → Prop) (s : Bytes) : Prop :=
  ∃ a t b, Ws a ∧ P t ∧ Ws b ∧ s = a ++ (t ++ b)

/-- One or more items separated by commas. -/
inductive Separated {β : Type} (item : β → Bytes → Prop) : List β → Bytes → Prop where
  | one {x : β} {s : Bytes} (h : item x s) : Separated item [x] s
  | cons {x : β} {xs : List β} {s t : Bytes} (h : item x s) (ht : Separated item xs t) :
      Separated item (x :: xs) (s ++ ch ',' :: t)

/-- A key, a colon and a value. -/
def Member (str : Bytes → Bytes → Prop) (P : Value → Bytes → Prop) (m : Bytes × Value) (s : Bytes) :
    Prop :=
  ∃ a key b t, Ws a ∧ str m.1 key ∧ Ws b ∧ Padded (P m.2) t ∧
    s = a ++ (quoted key ++ (b ++ ch ':' :: t))

/-- `s` spells `v` with at most `n` arrays and objects inside one another. -/
def Spells (str : Bytes → Bytes → Prop) : ℕ → Value → Bytes → Prop
  | _, .null, s => s = lit "null"
  | _, .bool b, s => s = if b then lit "true" else lit "false"
  | _, .number lexeme, s => Number lexeme ∧ s = lexeme
  | _, .string text, s => ∃ body, str text body ∧ s = quoted body
  | 0, .array _, _ => False
  | 0, .object _, _ => False
  | n + 1, .array vs, s => ∃ body, s = ch '[' :: (body ++ [ch ']']) ∧
      (vs = [] ∧ Ws body ∨ Separated (fun v => Padded (Spells str n v)) vs body)
  | n + 1, .object ms, s => ∃ body, s = ch '\x7b' :: (body ++ [ch '\x7d']) ∧
      (ms = [] ∧ Ws body ∨ Separated (Member str (Spells str n)) ms body)

/-! ## Building a text -/

/-- Characters that need no escape may stand for themselves. -/
theorem StringText.plain {cs : List Char}
    (h : ∀ c ∈ cs, 0x20 ≤ c.toNat ∧ c ≠ '"' ∧ c ≠ '\\') : StringText cs (utf8 cs) := by
  induction cs with
  | nil => exact .nil
  | cons c cs ih =>
    obtain ⟨hc, hq, hb⟩ := h c (by simp)
    exact .cons (.raw hc hq hb) (ih fun d hd => h d (by simp [hd]))

theorem Padded.self {P : Bytes → Prop} {s : Bytes} (h : P s) : Padded P s :=
  ⟨[], s, [], ws_nil, h, ws_nil, by simp⟩

theorem Separated.exists_of_forall {β : Type} {item : β → Bytes → Prop} {xs : List β} (hne : xs ≠ [])
    (h : ∀ x ∈ xs, ∃ s, item x s) : ∃ t, Separated item xs t := by
  induction xs with
  | nil => exact absurd rfl hne
  | cons x xs ih =>
    obtain ⟨⟨s, hs⟩, hrest⟩ := List.forall_mem_cons.1 h
    cases xs with
    | nil => exact ⟨s, .one hs⟩
    | cons y xs =>
      obtain ⟨t, ht⟩ := ih (List.cons_ne_nil y xs) hrest
      exact ⟨_, .cons hs ht⟩

theorem Member.self {str : Bytes → Bytes → Prop} {P : Value → Bytes → Prop} {key body s : Bytes}
    {v : Value} (hk : str key body) (hv : P v s) :
    Member str P (key, v) (quoted body ++ ch ':' :: s) :=
  ⟨[], body, [], s, ws_nil, hk, ws_nil, .self hv, by simp⟩

section

variable {str : Bytes → Bytes → Prop} {n : ℕ} {s : Bytes}

theorem spells_bool_iff {b : Bool} :
    Spells str n (.bool b) s ↔ s = if b then lit "true" else lit "false" := by cases n <;> rfl

theorem spells_number_iff {lexeme : Bytes} :
    Spells str n (.number lexeme) s ↔ Number lexeme ∧ s = lexeme := by cases n <;> rfl

theorem spells_string_iff {text : Bytes} :
    Spells str n (.string text) s ↔ ∃ body, str text body ∧ s = quoted body := by cases n <;> rfl

/-- Where the items have texts, so has the array. -/
theorem exists_spells_array {vs : List Value} (h : ∀ v ∈ vs, ∃ s, Spells str n v s) :
    ∃ s, Spells str (n + 1) (.array vs) s := by
  by_cases hne : vs = []
  · exact ⟨_, [], rfl, .inl ⟨hne, ws_nil⟩⟩
  · have hitems : ∀ v ∈ vs, ∃ s, Padded (Spells str n v) s := by
      intro v hv
      obtain ⟨s, hs⟩ := h v hv
      exact ⟨s, .self hs⟩
    obtain ⟨body, hbody⟩ := Separated.exists_of_forall hne hitems
    exact ⟨_, body, rfl, .inr hbody⟩

/-- Where the keys and the values have texts, so has the object. -/
theorem exists_spells_object {ms : List (Bytes × Value)}
    (h : ∀ m ∈ ms, (∃ key, str m.1 key) ∧ ∃ s, Spells str n m.2 s) :
    ∃ s, Spells str (n + 1) (.object ms) s := by
  by_cases hne : ms = []
  · exact ⟨_, [], rfl, .inl ⟨hne, ws_nil⟩⟩
  · have hmembers : ∀ m ∈ ms, ∃ s, Member str (Spells str n) m s := by
      intro m hm
      obtain ⟨⟨key, hkey⟩, s, hs⟩ := h m hm
      exact ⟨_, .self hkey hs⟩
    obtain ⟨body, hbody⟩ := Separated.exists_of_forall hne hmembers
    exact ⟨_, body, rfl, .inr hbody⟩

end

/-! ## Exchanging spellings -/

theorem Padded.imp {P Q : Bytes → Prop} (h : ∀ s, P s → Q s) {s : Bytes} (hs : Padded P s) :
    Padded Q s := by
  obtain ⟨a, t, b, ha, ht, hb, rfl⟩ := hs
  exact ⟨a, t, b, ha, h t ht, hb, rfl⟩

theorem Separated.imp {β : Type} {item item' : β → Bytes → Prop} {xs : List β} {s : Bytes}
    (hs : Separated item xs s) (h : ∀ x ∈ xs, ∀ s, item x s → item' x s) :
    Separated item' xs s := by
  induction hs with
  | one hx => exact .one (h _ (by simp) _ hx)
  | cons hx _ ih => exact .cons (h _ (by simp) _ hx) (ih fun y hy => h y (by simp [hy]))

theorem Separated.forall {β : Type} {item : β → Bytes → Prop} {xs : List β} {s : Bytes}
    (hs : Separated item xs s) : ∀ x ∈ xs, ∃ s, item x s := by
  induction hs with
  | one hx => simpa using ⟨_, hx⟩
  | cons hx _ ih => exact List.forall_mem_cons.2 ⟨⟨_, hx⟩, ih⟩

theorem Member.imp {str str' : Bytes → Bytes → Prop} {P Q : Value → Bytes → Prop}
    {m : Bytes × Value} {s : Bytes} (hm : Member str P m s)
    (hstr : ∀ key, str m.1 key → str' m.1 key)
    (h : ∀ s, Padded (P m.2) s → Padded (Q m.2) s) : Member str' Q m s := by
  obtain ⟨a, key, b, t, ha, hk, hb, ht, rfl⟩ := hm
  exact ⟨a, key, b, t, ha, hstr key hk, hb, h t ht, rfl⟩

theorem Separated.choose {β γ : Type} {item : β → Bytes → Prop} (item' : γ → Bytes → Prop)
    (h : ∀ x s, item x s → ∃ y, item' y s) {xs : List β} {s : Bytes} (hs : Separated item xs s) :
    ∃ ys, Separated item' ys s := by
  induction hs with
  | one hx =>
    obtain ⟨y, hy⟩ := h _ _ hx
    exact ⟨[y], .one hy⟩
  | cons hx _ ih =>
    obtain ⟨y, hy⟩ := h _ _ hx
    obtain ⟨ys, hys⟩ := ih
    exact ⟨y :: ys, .cons hy hys⟩

/-! ## NUL bytes -/

theorem Ws.zero_notMem {s : Bytes} (h : Ws s) : 0 ∉ s := fun h0 => absurd (h 0 h0) (by decide)

theorem Separated.zero_notMem {β : Type} {item : β → Bytes → Prop} (h : ∀ x s, item x s → 0 ∉ s)
    {xs : List β} {s : Bytes} (hs : Separated item xs s) : 0 ∉ s := by
  induction hs with
  | one hx => exact h _ _ hx
  | cons hx _ ih =>
    have := h _ _ hx
    simp [this, ih]

theorem Hex4.zero_notMem {n : ℕ} {s : Bytes} (h : Hex4 n s) : 0 ∉ s := by
  obtain ⟨a, b, c, d, va, vb, vc, vd, rfl, ha, hb, hc, hd, -⟩ := h
  have hnone : digitValue 16 0 = none := by decide
  have hdigit : ∀ {x : UInt8} {v : ℕ}, digitValue 16 x = some v → 0 ≠ x := by
    rintro x v hx rfl
    rw [hnone] at hx
    cases hx
  simp [hdigit ha, hdigit hb, hdigit hc, hdigit hd]

theorem ne_zero_of_shortEscape {e : UInt8} {c : Char} (h : shortEscape e = some c) : 0 ≠ e := by
  have hnone : shortEscape 0 = none := by decide
  rintro rfl
  rw [hnone] at h
  cases h

theorem StringBody.zero_notMem {s : Bytes} (h : StringBody s) : 0 ∉ s := by
  induction h with
  | nil => simp
  | @raw c t hc _ _ _ ih =>
    have hne : c ≠ 0 := fun h0 => absurd (h0 ▸ hc) (by decide)
    simp [ih, hne.symm]
  | short he _ ih => simp [ih, ne_zero_of_shortEscape he]
  | hex hs _ ih => simp [ih, hs.zero_notMem]

end JsonText
