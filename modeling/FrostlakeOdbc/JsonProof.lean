import FrostlakeOdbc.JsonLoops
import FrostlakeOdbc.Lib.JsonUnique

/-!
# What the JSON parser accepts

`parseValue_spellsWith`: whatever the ways its strings are spelled, the parser reads a value from
each of its spellings, and leaves what follows it. A string parser only has to be right about the
bodies of strings (`ReadsStrings`); `parseStringBody_stringText` and `exists_parseStringBody` say
that it is right about every legal spelling of a list of characters, and that it accepts every body
whose escapes are legal.
-/

namespace FrostlakeOdbc

open CString JsonText

/-! ## White space -/

theorem skipWs_append_of_ws {a : Bytes} (ha : Ws a) (s : Bytes) : skipWs (a ++ s) = skipWs s :=
  List.dropWhile_append_of_pos fun c hc => ha c hc

theorem skipWs_cons {c : UInt8} (hc : isWs c = false) (s : Bytes) : skipWs (c :: s) = c :: s := by
  simp [skipWs, hc]

theorem skipWs_eq_nil {b : Bytes} (hb : Ws b) : skipWs b = [] := by
  simpa [skipWs] using skipWs_append_of_ws hb []

theorem isWs_of_skipWs {s r : Bytes} {c : UInt8} (h : skipWs s = c :: r) : isWs c = false := by
  have := List.head?_dropWhile_not isWs s
  rw [skipWs] at h
  rw [h] at this
  simpa using this

@[simp] theorem skipWs_skipWs (s : Bytes) : skipWs (skipWs s) = skipWs s := by
  cases h : skipWs s with
  | nil => rfl
  | cons c r => exact skipWs_cons (isWs_of_skipWs h) r

theorem skipWs_append {s r : Bytes} {c : UInt8} (h : skipWs s = c :: r) (x : Bytes) :
    skipWs (s ++ x) = c :: (r ++ x) := by
  rw [skipWs, List.dropWhile_append, ← skipWs, h]
  rfl

@[simp] theorem parseValue_skipWs (n : ℕ) (s : Bytes) : parseValue n (skipWs s) = parseValue n s := by
  cases n <;> simp only [parseValue, skipWs_skipWs]

@[simp] theorem parseMember_skipWs (pv : ValueParser) (s : Bytes) :
    parseMember pv (skipWs s) = parseMember pv s := by
  simp only [parseMember, parseKey, skipWs_skipWs]

/-! ## Bodies of strings -/

/-- What is put in front of a parsed text. -/
def prependText (d : Bytes) (r : Bytes × Bytes) : Bytes × Bytes := (d ++ r.1, r.2)

theorem parseStringBody_quote (s : Bytes) : parseStringBody (ch '"' :: s) = some ([], s) := rfl

theorem parseStringBody_item {c : UInt8} {s d r : Bytes} (hc : c ≠ ch '"')
    (h : parseStringItem c s = some (d, r)) :
    parseStringBody (c :: s) = (parseStringBody r).map (prependText d) := by
  refine Option.ext fun ⟨t, rest⟩ => ?_
  rw [parseStringBody_eq_some_iff, Option.map_eq_some_iff]
  constructor
  · rintro ⟨c', s', heq, h'⟩
    obtain ⟨rfl, rfl⟩ := List.cons.inj heq
    obtain ⟨hq, -⟩ | ⟨-, d', r', t', hd, ht, rfl⟩ := h'
    · exact absurd hq hc
    · rw [h] at hd
      cases hd
      exact ⟨(t', rest), ht, rfl⟩
  · rintro ⟨⟨t', rest'⟩, ht, he⟩
    cases he
    exact ⟨c, s, rfl, Or.inr ⟨hc, d, r, t', h, ht, rfl⟩⟩

theorem parseStringBody_byte {c : UInt8} (hq : c ≠ ch '"') (hb : c ≠ ch '\\') (s : Bytes) :
    parseStringBody (c :: s) = (parseStringBody s).map (prependText [c]) :=
  parseStringBody_item hq (parseStringItem_eq_some_iff.2 (Or.inl ⟨hb, rfl, rfl⟩))

theorem parseStringBody_bytes {bs : Bytes} (h : ∀ c ∈ bs, c ≠ ch '"' ∧ c ≠ ch '\\') (s : Bytes) :
    parseStringBody (bs ++ s) = (parseStringBody s).map (prependText bs) := by
  induction bs with
  | nil =>
    have : prependText [] = id := rfl
    rw [this, Option.map_id, List.nil_append, id]
  | cons c bs ih =>
    obtain ⟨hq, hb⟩ := h c (by simp)
    rw [List.cons_append, parseStringBody_byte hq hb, ih fun c' hc' => h c' (by simp [hc']),
      Option.map_map]
    rfl

theorem parseStringBody_escape {e b : UInt8} (h : unescape e = some b) (s : Bytes) :
    parseStringBody (ch '\\' :: e :: s) = (parseStringBody s).map (prependText [b]) :=
  parseStringBody_item (by decide)
    (parseStringItem_eq_some_iff.2 (Or.inr (Or.inl ⟨rfl, e, b, rfl, h, rfl⟩)))

theorem parseStringBody_unicode {s d r : Bytes} (h : parseUnicode s = some (d, r)) :
    parseStringBody (ch '\\' :: ch 'u' :: s) = (parseStringBody r).map (prependText d) :=
  parseStringBody_item (by decide)
    (parseStringItem_eq_some_iff.2 (Or.inr (Or.inr ⟨rfl, s, rfl, h⟩)))

theorem unescape_of_shortEscape {e : UInt8} {c : Char} (h : shortEscape e = some c) :
    unescape e = some (ch c) ∧ String.utf8EncodeChar c = [ch c] := by
  unfold shortEscape at h
  split_ifs at h with h₁ h₂ h₃ h₄ h₅ h₆ h₇ h₈ <;> cases h <;> subst e <;> decide

/-! ## Hexadecimal escapes -/

theorem hexDigit_eq_digitValue (c : UInt8) : hexDigit c = digitValue 16 c := by
  apply forall_byte (P := fun c => hexDigit c = digitValue 16 c)
  decide +kernel

theorem parseHex4_append {n : ℕ} {s : Bytes} (h : Hex4 n s) (rest : Bytes) :
    parseHex4 (s ++ rest) = some (n, rest) := by
  obtain ⟨a, b, c, d, va, vb, vc, vd, rfl, ha, hb, hc, hd, rfl⟩ := h
  simp only [← hexDigit_eq_digitValue] at ha hb hc hd
  exact parseHex4_eq_some_iff.2 ⟨a, b, c, d, va, vb, vc, vd, rfl, ha, hb, hc, hd, rfl⟩

theorem length_hex4 {n : ℕ} {s : Bytes} (h : Hex4 n s) : s.length = 4 := by
  obtain ⟨a, b, c, d, va, vb, vc, vd, rfl, -⟩ := h
  rfl

theorem opensPair_eq_true_iff {cp : ℕ} {r : Bytes} :
    opensPair cp r = true ↔ (0xD800 ≤ cp ∧ cp ≤ 0xDBFF) ∧ 6 ≤ r.length ∧
      r.take 2 = [ch '\\', ch 'u'] := by
  simp only [opensPair, Bool.and_eq_true, decide_eq_true_eq, and_assoc]

theorem parseUnicode_single {cp : ℕ} {s r : Bytes} (h : Hex4 cp s) (hp : opensPair cp r = false) :
    parseUnicode (s ++ r) = some (appendUtf8 cp, r) :=
  parseUnicode_eq_some_iff.2 ⟨cp, r, parseHex4_append h r, Or.inr ⟨hp, rfl, rfl⟩⟩

theorem parseUnicode_pair {cp low : ℕ} {s t : Bytes} (h : Hex4 cp s) (hl : Hex4 low t)
    (hcp : 0xD800 ≤ cp ∧ cp ≤ 0xDBFF) (r : Bytes) :
    parseUnicode (s ++ ch '\\' :: ch 'u' :: (t ++ r)) = some (appendUtf8 (combine cp low), r) := by
  have hp : opensPair cp (ch '\\' :: ch 'u' :: (t ++ r)) = true := by
    have := length_hex4 hl
    refine opensPair_eq_true_iff.2 ⟨hcp, ?_, rfl⟩
    simp only [List.length_cons, List.length_append]
    omega
  exact parseUnicode_eq_some_iff.2
    ⟨cp, _, parseHex4_append h _, Or.inl ⟨hp, low, parseHex4_append hl r, rfl⟩⟩

/-! ## UTF-8 -/

theorem or_eq_add (i a : ℕ) {b : ℕ} (hb : b < 2 ^ i) : 2 ^ i * a ||| b = b + 2 ^ i * a := by
  rw [← Nat.two_pow_add_eq_or_of_lt hb, Nat.add_comm]

theorem and_63 (n : ℕ) : n &&& 0x3F = n % 64 := Nat.and_two_pow_sub_one_eq_mod n 6

theorem toNat_char_lt (c : Char) : c.toNat < 0x110000 := by
  rcases c.valid with h | ⟨-, h⟩
  · exact Nat.lt_trans h (by decide)
  · exact h

theorem toNat_char_not_surrogate (c : Char) : ¬(0xD800 ≤ c.toNat ∧ c.toNat ≤ 0xDBFF) := by
  rcases c.valid with h | ⟨h, -⟩
  · have h' : c.toNat < 0xD800 := h
    omega
  · have h' : 0xDFFF < c.toNat := h
    omega

/-- The driver's encoder agrees with UTF-8 on every character. -/
theorem appendUtf8_toNat (c : Char) : appendUtf8 c.toNat = String.utf8EncodeChar c := by
  have hlt := toNat_char_lt c
  have h80 : ∀ n, 0x80 ||| (n % 64) = n % 64 + 0x80 := fun n =>
    or_eq_add 6 2 (Nat.mod_lt _ (by decide))
  have hC0 : ∀ n, n < 64 → 0xC0 ||| n = n + 0xC0 := fun _ => or_eq_add 6 3
  have hE0 : ∀ n, n < 32 → 0xE0 ||| n = n + 0xE0 := fun _ => or_eq_add 5 7
  have hF0 : ∀ n, n < 16 → 0xF0 ||| n = n + 0xF0 := fun _ => or_eq_add 4 15
  unfold appendUtf8 String.utf8EncodeChar
  simp only [and_63, Nat.shiftRight_eq_div_pow, h80]
  have hv : c.val.toNat = c.toNat := rfl
  rw [hv]
  generalize c.toNat = v at hlt
  by_cases h₁ : v < 0x80
  · have h₁' : v ≤ 0x7f := by omega
    rw [if_pos h₁, if_pos h₁']
  have h₁' : ¬v ≤ 0x7f := by omega
  rw [if_neg h₁, if_neg h₁']
  by_cases h₂ : v < 0x800
  · have h₂' : v ≤ 0x7ff := by omega
    have hd : v / 64 % 32 = v / 2 ^ 6 := by omega
    rw [if_pos h₂, if_pos h₂', hd, hC0 _ (by omega)]
  have h₂' : ¬v ≤ 0x7ff := by omega
  rw [if_neg h₂, if_neg h₂']
  by_cases h₃ : v < 0x10000
  · have h₃' : v ≤ 0xffff := by omega
    have hd : v / 4096 % 16 = v / 2 ^ 12 := by omega
    rw [if_pos h₃, if_pos h₃', hd, hE0 _ (by omega)]
  have h₃' : ¬v ≤ 0xffff := by omega
  have hd : v / 262144 % 8 = v / 2 ^ 18 := by omega
  rw [if_neg h₃, if_neg h₃', hd, hF0 _ (by omega)]

theorem combine_surrogates {n : ℕ} (h : 0x10000 ≤ n) :
    combine (0xD800 + (n - 0x10000) / 0x400) (0xDC00 + (n - 0x10000) % 0x400) = n := by
  unfold combine
  rw [Nat.shiftLeft_eq]
  omega

theorem utf8EncodeChar_ascii {c : Char} (h : c.toNat < 0x80) : String.utf8EncodeChar c = [ch c] := by
  rw [← appendUtf8_toNat, appendUtf8, if_pos h, ch]

theorem ofNat_ne_of_le {n : ℕ} (h : 0x80 ≤ n) (h' : n < 0x100) {c : UInt8} (hc : c < 0x80) :
    UInt8.ofNat n ≠ c := by
  rintro rfl
  rw [UInt8.lt_iff_toNat_lt, UInt8.toNat_ofNat'] at hc
  have : n % 2 ^ 8 = n := Nat.mod_eq_of_lt h'
  rw [this] at hc
  exact absurd hc (by simpa using h)

/-- The bytes of a character beyond ASCII are none of ASCII's. -/
theorem ne_of_mem_utf8EncodeChar {c : Char} (h : 0x80 ≤ c.toNat) {b a : UInt8}
    (hb : b ∈ String.utf8EncodeChar c) (ha : a < 0x80) : b ≠ a := by
  have hv : c.val.toNat = c.toNat := rfl
  unfold String.utf8EncodeChar at hb
  simp only [hv] at hb
  rw [if_neg (by omega)] at hb
  have hlt := toNat_char_lt c
  generalize c.toNat = v at hb hlt
  split_ifs at hb <;> simp only [List.mem_cons, List.not_mem_nil, or_false] at hb
  · rcases hb with rfl | rfl <;> exact ofNat_ne_of_le (by omega) (by omega) ha
  · rcases hb with rfl | rfl | rfl <;> exact ofNat_ne_of_le (by omega) (by omega) ha
  · rcases hb with rfl | rfl | rfl | rfl <;> exact ofNat_ne_of_le (by omega) (by omega) ha

theorem utf8EncodeChar_plain {c : Char} (hq : c ≠ '"') (hb : c ≠ '\\') :
    ∀ b ∈ String.utf8EncodeChar c, b ≠ ch '"' ∧ b ≠ ch '\\' := by
  intro b hmem
  by_cases h : c.toNat < 0x80
  · rw [utf8EncodeChar_ascii h, List.mem_singleton] at hmem
    subst hmem
    have hinj : ∀ d : Char, d.toNat < 0x80 → c ≠ d → ch c ≠ ch d := by
      intro d hd hne he
      apply hne
      have := congrArg UInt8.toNat he
      rw [ch, ch, UInt8.toNat_ofNat', UInt8.toNat_ofNat', Nat.mod_eq_of_lt (by omega),
        Nat.mod_eq_of_lt (by omega)] at this
      exact Char.toNat_inj.1 this
    exact ⟨hinj '"' (by decide) hq, hinj '\\' (by decide) hb⟩
  · exact ⟨ne_of_mem_utf8EncodeChar (by omega) hmem (by decide),
      ne_of_mem_utf8EncodeChar (by omega) hmem (by decide)⟩

/-! ## Every legal spelling of a text -/

theorem parseStringBody_charText {c : Char} {s : Bytes} (h : CharText c s) (y : Bytes) :
    parseStringBody (s ++ y) =
      (parseStringBody y).map (prependText (String.utf8EncodeChar c)) := by
  cases h with
  | raw hc hq hb => exact parseStringBody_bytes (utf8EncodeChar_plain hq hb) y
  | short h =>
    obtain ⟨hu, he⟩ := unescape_of_shortEscape h
    rw [he]
    exact parseStringBody_escape hu y
  | @hex s h =>
    rw [← appendUtf8_toNat]
    have hp : opensPair c.toNat y = false := by
      rw [← Bool.not_eq_true, opensPair_eq_true_iff]
      exact fun hp => toNat_char_not_surrogate c hp.1
    exact parseStringBody_unicode (parseUnicode_single h hp)
  | @pair hi lo hc hhi hlo =>
    rw [← appendUtf8_toNat, ← combine_surrogates hc]
    have hlt := toNat_char_lt c
    have := parseUnicode_pair hhi hlo ⟨by omega, by omega⟩ y
    rw [List.cons_append, List.cons_append, List.append_assoc]
    exact parseStringBody_unicode this

theorem parseStringBody_stringText {cs : List Char} {s : Bytes} (h : StringText cs s) (y : Bytes) :
    parseStringBody (s ++ ch '"' :: y) = some (utf8 cs, y) := by
  induction h with
  | nil => rfl
  | @cons c cs s t hc _ ih =>
    rw [List.append_assoc, parseStringBody_charText hc, ih]
    rfl

/-! ## Every body -/

/-- Whether a body goes on with a `\u` escape does not depend on what follows the string. -/
theorem looseBody_cases {s : Bytes} (h : LooseBody s) :
    (∃ n t u, Hex4 n t ∧ LooseBody u ∧ s = ch '\\' :: ch 'u' :: (t ++ u)) ∨
      ∀ cp rest, opensPair cp (s ++ ch '"' :: rest) = false := by
  have other : ∀ {u : Bytes}, u.take 2 ≠ [ch '\\', ch 'u'] → ∀ cp, opensPair cp u = false := by
    intro u hu cp
    rw [← Bool.not_eq_true, opensPair_eq_true_iff]
    exact fun hp => hu hp.2.2
  cases h with
  | nil =>
    refine Or.inr fun cp rest => other (fun he => ?_) cp
    cases rest <;> cases he
  | @raw c t hq hb ht =>
    refine Or.inr fun cp rest => other (fun he => hb ?_) cp
    exact (List.cons.inj he).1
  | @short e c t h ht =>
    refine Or.inr fun cp rest => other (fun he => ?_) cp
    have : e = ch 'u' := (List.cons.inj (List.cons.inj he).2).1
    subst this
    cases h
  | @hex n t u h hu => exact Or.inl ⟨n, t, u, h, hu, rfl⟩

theorem exists_parseStringBody {s : Bytes} (h : LooseBody s) :
    ∃ t, ∀ rest, parseStringBody (s ++ ch '"' :: rest) = some (t, rest) := by
  -- a high surrogate takes the escape after it along, so the induction is on the length
  induction hn : s.length using Nat.strongRecOn generalizing s with
  | ind n ih =>
    subst hn
    cases h with
    | nil => exact ⟨[], fun _ => rfl⟩
    | @raw c u hq hb hu =>
      obtain ⟨t, ht⟩ := ih u.length (by simp) hu rfl
      refine ⟨c :: t, fun rest => ?_⟩
      rw [List.cons_append, parseStringBody_byte hq hb, ht]
      rfl
    | @short e c u h hu =>
      obtain ⟨t, ht⟩ := ih u.length (by simp only [List.length_cons]; omega) hu rfl
      refine ⟨ch c :: t, fun rest => ?_⟩
      rw [List.cons_append, List.cons_append, parseStringBody_escape (unescape_of_shortEscape h).1,
        ht]
      rfl
    | @hex n s' u h hu =>
      have hlen : u.length < (ch '\\' :: ch 'u' :: (s' ++ u)).length := by
        simp only [List.length_cons, List.length_append]
        omega
      by_cases hsur : 0xD800 ≤ n ∧ n ≤ 0xDBFF
      · rcases looseBody_cases hu with ⟨low, s'', u', hl, hu', rfl⟩ | hno
        · obtain ⟨t, ht⟩ := ih u'.length (by
            simp only [List.length_cons, List.length_append] at hlen ⊢
            omega) hu' rfl
          refine ⟨appendUtf8 (combine n low) ++ t, fun rest => ?_⟩
          simp only [List.cons_append, List.append_assoc]
          rw [parseStringBody_unicode (parseUnicode_pair h hl hsur _), ht]
          rfl
        · obtain ⟨t, ht⟩ := ih u.length hlen hu rfl
          refine ⟨appendUtf8 n ++ t, fun rest => ?_⟩
          simp only [List.cons_append, List.append_assoc]
          rw [parseStringBody_unicode (parseUnicode_single h (hno n rest)), ht]
          rfl
      · obtain ⟨t, ht⟩ := ih u.length hlen hu rfl
        refine ⟨appendUtf8 n ++ t, fun rest => ?_⟩
        have hp : opensPair n (u ++ ch '"' :: rest) = false := by
          rw [← Bool.not_eq_true, opensPair_eq_true_iff]
          exact fun hp => hsur hp.1
        simp only [List.cons_append, List.append_assoc]
        rw [parseStringBody_unicode (parseUnicode_single h hp), ht]
        rfl

/-! ## Lists of items -/

/-- `p` reads `x` from `s`, up to white space, wherever a comma or `close` follows. -/
def ReadsItem {β : Type} (p : Bytes → Option (β × Bytes)) (close : UInt8) (x : β) (s : Bytes) :
    Prop :=
  ∀ c r, (c = ch ',' ∨ c = close) → ∃ b, Ws b ∧ p (s ++ c :: r) = some (x, b ++ c :: r)

section

variable {β : Type} {p : Bytes → Option (β × Bytes)} {close : UInt8} {item : β → Bytes → Prop}

theorem parseSeparated_separated (hclose : isWs close = false) (hcomma : close ≠ ch ',')
    (hitem : ∀ x s, item x s → ReadsItem p close x s) {xs : List β} {body : Bytes}
    (h : Separated item xs body) (rest : Bytes) {fuel : ℕ} (hf : body.length < fuel) :
    parseSeparated p close fuel (body ++ close :: rest) = some (xs, rest) := by
  induction h generalizing fuel with
  | @one x s h =>
    obtain ⟨fuel, rfl⟩ : ∃ n, fuel = n + 1 := ⟨fuel - 1, by omega⟩
    obtain ⟨b, hb, hp⟩ := hitem x s h close rest (Or.inr rfl)
    refine parseSeparated_succ_eq_some_iff.2
      ⟨x, _, close, rest, hp, ?_, Or.inr ⟨hcomma, rfl, rfl, rfl⟩⟩
    rw [skipWs_append_of_ws hb, skipWs_cons hclose]
  | @cons x xs s t h _ ih =>
    obtain ⟨fuel, rfl⟩ : ∃ n, fuel = n + 1 := ⟨fuel - 1, by omega⟩
    rw [List.append_assoc]
    obtain ⟨b, hb, hp⟩ := hitem x s h (ch ',') (t ++ close :: rest) (Or.inl rfl)
    simp only [List.length_append, List.length_cons] at hf
    refine parseSeparated_succ_eq_some_iff.2
      ⟨x, _, ch ',', t ++ close :: rest, hp, ?_, Or.inl ⟨rfl, xs, ih (by omega), rfl⟩⟩
    rw [skipWs_append_of_ws hb]
    exact skipWs_cons (by decide) _

theorem parseSeparated_skipWs (hws : ∀ s, p (skipWs s) = p s) (fuel : ℕ) (s : Bytes) :
    parseSeparated p close fuel (skipWs s) = parseSeparated p close fuel s := by
  cases fuel with
  | zero => rfl
  | succ fuel => simp only [parseSeparated, hws]

/-- Items that do not start with the closing byte are read between the brackets. -/
theorem parseList_separated (hp : Shrinks p) (hnil : p [] = none) (hclose : isWs close = false)
    (hcomma : close ≠ ch ',') (hws : ∀ s, p (skipWs s) = p s)
    (hitem : ∀ x s, item x s → ReadsItem p close x s)
    (hhead : ∀ x s, item x s → ∃ c r, skipWs s = c :: r ∧ c ≠ close) {xs : List β} {body : Bytes}
    (h : Separated item xs body) (rest : Bytes) :
    parseList p close (body ++ close :: rest) = some (xs, rest) := by
  obtain ⟨c, r, hc, hne⟩ : ∃ c r, skipWs body = c :: r ∧ c ≠ close := by
    cases h with
    | one h => exact hhead _ _ h
    | cons h _ =>
      obtain ⟨c, r, hc, hne⟩ := hhead _ _ h
      exact ⟨c, _, skipWs_append hc _, hne⟩
  have hskip := skipWs_append hc (close :: rest)
  refine parseList_eq_some_iff.2 ⟨c, _, hskip, Or.inr ⟨hne, ?_⟩⟩
  -- the white space in front is not in the budget of the loop, but more budget changes nothing
  have hle := length_skipWs_le (body ++ close :: rest)
  rw [← hskip, ← parseSeparated_budget hp hnil (Nat.le_succ_of_le hle), parseSeparated_skipWs hws]
  apply parseSeparated_separated hclose hcomma hitem h rest
  simp only [List.length_append, List.length_cons]
  omega

end

/-! ## Values -/

/-- The parser of what is inside an array or an object, `depth` more levels being allowed. -/
def nestedParser : ℕ → Option ValueParser
  | 0 => none
  | depth + 1 => some (parseValue depth)

theorem parseValue_eq (depth : ℕ) (s : Bytes) :
    parseValue depth s = parseAt (nestedParser depth) (skipWs s) := by
  cases depth <;> rfl

section

variable {num : Bytes → Prop} {str : Bytes → Bytes → Prop}

theorem spells_skipWs (hnum : ∀ s, num s → LooseNumber s) {n : ℕ} {v : Value} {s : Bytes}
    (h : SpellsWith num str n v s) (rest : Bytes) : skipWs (s ++ rest) = s ++ rest := by
  obtain ⟨c, r, rfl, hc⟩ := h.head hnum
  exact skipWs_cons (announced_plain hc).1 _

/-- The string parser reads what `str` spells. -/
def ReadsStrings (str : Bytes → Bytes → Prop) : Prop :=
  ∀ t body, str t body → ∀ rest, parseStringBody (body ++ ch '"' :: rest) = some (t, rest)

theorem parseLiteral_append (word rest : Bytes) (node : Value) :
    parseLiteral word node (word ++ rest) = some (node, rest) :=
  parseLiteral_eq_some_iff.2 ⟨rfl, rfl⟩

theorem parseNumber_append {lexeme rest : Bytes} (h : LooseNumber lexeme) (hr : NumberStop rest) :
    parseNumber (lexeme ++ rest) = some (.number lexeme, rest) := by
  obtain ⟨hne, hall⟩ := h
  have ht : (lexeme ++ rest).takeWhile isNumberByte = lexeme :=
    (takeWhile_append_stop hall hr).1
  have hsplit := List.takeWhile_append_dropWhile (p := isNumberByte) (l := lexeme ++ rest)
  rw [ht] at hsplit
  have hd := List.append_cancel_left hsplit
  exact parseNumber_eq_some_iff.2 ⟨by rwa [ht], by rw [ht], hd.symm⟩

theorem parserAt_number {lexeme rest : Bytes} (nested : Option ValueParser)
    (h : LooseNumber lexeme) :
    parseAt nested (lexeme ++ rest) = parseNumber (lexeme ++ rest) := by
  obtain ⟨hne, hall⟩ := h
  obtain ⟨c, r, rfl⟩ := List.exists_cons_of_ne_nil hne
  have hc := hall c (by simp)
  have hne : c ≠ ch '\x7b' ∧ c ≠ ch '[' ∧ c ≠ ch '"' ∧ c ≠ ch 't' ∧ c ≠ ch 'f' ∧ c ≠ ch 'n' := by
    revert hc
    apply forall_byte (P := fun c => isNumberByte c = true →
      c ≠ ch '\x7b' ∧ c ≠ ch '[' ∧ c ≠ ch '"' ∧ c ≠ ch 't' ∧ c ≠ ch 'f' ∧ c ≠ ch 'n')
    decide +kernel
  obtain ⟨h₁, h₂, h₃, h₄, h₅, h₆⟩ := hne
  rw [List.cons_append, parseAt, parserAt, if_neg h₁, if_neg h₂, if_neg h₃, if_neg h₄, if_neg h₅,
    if_neg h₆]

theorem readsItem_padded {n : ℕ} {close : UInt8} (hclose : isNumberByte close = false)
    (hv : ∀ v s, SpellsWith num str n v s → ∀ rest, NumberStop rest →
      parseValue n (s ++ rest) = some (v, rest))
    {v : Value} {s : Bytes} (h : Padded (SpellsWith num str n v) s) :
    ReadsItem (parseValue n) close v s := by
  obtain ⟨a, t, b, ha, ht, hb, rfl⟩ := h
  intro c r hc
  refine ⟨b, hb, ?_⟩
  have hstop : NumberStop (c :: r) := by
    intro d hd
    obtain rfl : c = d := by simpa using hd
    rcases hc with rfl | rfl
    · decide
    · exact hclose
  have := hv v t ht (b ++ c :: r) (numberStop_append hb hstop)
  rw [← parseValue_skipWs] at this ⊢
  rw [List.append_assoc, skipWs_append_of_ws ha, List.append_assoc]
  exact this

theorem readsItem_member (hstr : ReadsStrings str) {n : ℕ} {close : UInt8}
    (hclose : isNumberByte close = false)
    (hv : ∀ v s, SpellsWith num str n v s → ∀ rest, NumberStop rest →
      parseValue n (s ++ rest) = some (v, rest))
    {m : Bytes × Value} {s : Bytes} (h : Member str (SpellsWith num str n) m s) :
    ReadsItem (parseMember (parseValue n)) close m s := by
  obtain ⟨a, key, b, t, ha, hk, hb, ht, rfl⟩ := h
  intro c r hc
  obtain ⟨b', hb', hval⟩ := readsItem_padded hclose hv ht c r hc
  refine ⟨b', hb', parseMember_eq_some_iff.2 ⟨t ++ c :: r, ?_, hval⟩⟩
  refine parseKey_eq_some_iff.2 ⟨key ++ ch '"' :: (b ++ ch ':' :: (t ++ c :: r)),
    b ++ ch ':' :: (t ++ c :: r), ?_, hstr _ _ hk _, ?_⟩
  · rw [List.append_assoc, skipWs_append_of_ws ha]
    simp only [quoted, List.cons_append, List.append_assoc, List.nil_append]
    exact skipWs_cons (by decide) _
  · rw [skipWs_append_of_ws hb]
    exact skipWs_cons (by decide) _

theorem parseList_empty {β : Type} {p : Bytes → Option (β × Bytes)} {close : UInt8}
    (hclose : isWs close = false) {body : Bytes} (hb : Ws body) (rest : Bytes) :
    parseList p close (body ++ close :: rest) = some ([], rest) := by
  refine parseList_eq_some_iff.2 ⟨close, rest, ?_, Or.inl ⟨rfl, rfl, rfl⟩⟩
  rw [skipWs_append_of_ws hb, skipWs_cons hclose]

theorem parseArray_spells (hnum : ∀ s, num s → LooseNumber s) {n : ℕ}
    (hv : ∀ v s, SpellsWith num str n v s → ∀ rest, NumberStop rest →
      parseValue n (s ++ rest) = some (v, rest))
    {vs : List Value} {s : Bytes} (h : SpellsWith num str (n + 1) (.array vs) s) (rest : Bytes) :
    parseArray (parseValue n) (s ++ rest) = some (.array vs, rest) := by
  obtain ⟨body, rfl, hbody⟩ := h
  refine parseArray_eq_some_iff.2 ⟨vs, ?_, rfl⟩
  simp only [List.cons_append, List.append_assoc, List.nil_append, List.drop_one, List.tail_cons]
  rcases hbody with ⟨rfl, hws⟩ | hsep
  · exact parseList_empty (by decide) hws rest
  · refine parseList_separated (shrinks_parseValue n) (parseValue_nil n) (by decide) (by decide)
      (parseValue_skipWs n) (fun v s h => readsItem_padded (by decide) hv h) ?_ hsep rest
    rintro v s ⟨a, t, b, ha, ht, -, rfl⟩
    obtain ⟨c, r, rfl, hc⟩ := ht.head hnum
    obtain ⟨hws, hne, -⟩ := announced_plain hc
    refine ⟨c, r ++ b, ?_, hne⟩
    rw [skipWs_append_of_ws ha]
    exact skipWs_cons hws _

theorem parseObject_spells (hstr : ReadsStrings str) {n : ℕ}
    (hv : ∀ v s, SpellsWith num str n v s → ∀ rest, NumberStop rest →
      parseValue n (s ++ rest) = some (v, rest))
    {ms : List (Bytes × Value)} {s : Bytes} (h : SpellsWith num str (n + 1) (.object ms) s)
    (rest : Bytes) : parseObject (parseValue n) (s ++ rest) = some (.object ms, rest) := by
  obtain ⟨body, rfl, hbody⟩ := h
  refine parseObject_eq_some_iff.2 ⟨ms, ?_, rfl⟩
  simp only [List.cons_append, List.append_assoc, List.nil_append, List.drop_one, List.tail_cons]
  rcases hbody with ⟨rfl, hws⟩ | hsep
  · exact parseList_empty (by decide) hws rest
  · refine parseList_separated (shrinks_parseMember (shrinks_parseValue n)) (parseMember_nil _)
      (by decide) (by decide) (parseMember_skipWs _)
      (fun m s h => readsItem_member hstr (by decide) hv h) ?_ hsep rest
    rintro m s ⟨a, key, b, t, ha, -, -, -, rfl⟩
    refine ⟨ch '"', (key ++ [ch '"']) ++ (b ++ ch ':' :: t), ?_, by decide⟩
    rw [skipWs_append_of_ws ha]
    exact skipWs_cons (by decide) _

/-- One level of `parseValue_spells`: it is left to show of arrays and objects. -/
theorem parseAt_spells (hnum : ∀ s, num s → LooseNumber s) (hstr : ReadsStrings str)
    (nested : Option ValueParser) {n : ℕ} {v : Value} {s : Bytes} (h : SpellsWith num str n v s)
    {rest : Bytes} (hr : NumberStop rest)
    (array : ∀ vs, v = .array vs → parseAt nested (s ++ rest) = some (v, rest))
    (object : ∀ ms, v = .object ms → parseAt nested (s ++ rest) = some (v, rest)) :
    parseAt nested (s ++ rest) = some (v, rest) := by
  cases v with
  | null =>
    rw [spellsWith_null_iff.1 h]
    exact parseLiteral_append (lit "null") rest .null
  | bool b =>
    rw [spellsWith_bool_iff.1 h]
    cases b
    · exact parseLiteral_append (lit "false") rest (.bool false)
    · exact parseLiteral_append (lit "true") rest (.bool true)
  | number lexeme =>
    obtain ⟨hlex, rfl⟩ := spellsWith_number_iff.1 h
    rw [parserAt_number _ (hnum _ hlex), parseNumber_append (hnum _ hlex) hr]
  | string t =>
    obtain ⟨body, hb, rfl⟩ := spellsWith_string_iff.1 h
    show parseString (quoted body ++ rest) = _
    refine parseString_eq_some_iff.2 ⟨t, ?_, rfl⟩
    simp only [quoted, List.cons_append, List.append_assoc, List.nil_append, List.drop_one,
      List.tail_cons]
    exact hstr t body hb rest
  | array vs => exact array vs rfl
  | object ms => exact object ms rfl

/-- Every spelling of a value is read as that value, and nothing after it is. -/
theorem parseValue_spellsWith (hnum : ∀ s, num s → LooseNumber s) (hstr : ReadsStrings str) (n : ℕ)
    (v : Value) (s : Bytes) (h : SpellsWith num str n v s) (rest : Bytes) (hr : NumberStop rest) :
    parseValue n (s ++ rest) = some (v, rest) := by
  induction n generalizing v s rest with
  | zero =>
    rw [parseValue_eq, spells_skipWs hnum h]
    apply parseAt_spells hnum hstr _ h hr
    · rintro vs rfl
      exact absurd h (by simp [SpellsWith])
    · rintro ms rfl
      exact absurd h (by simp [SpellsWith])
  | succ n ih =>
    rw [parseValue_eq, spells_skipWs hnum h]
    apply parseAt_spells hnum hstr _ h hr
    · rintro vs rfl
      have := parseArray_spells hnum ih h rest
      obtain ⟨body, rfl, -⟩ := h
      exact this
    · rintro ms rfl
      have := parseObject_spells hstr ih h rest
      obtain ⟨body, rfl, -⟩ := h
      exact this

/-- `fl_json_parse` reads a value with white space around it. -/
theorem flJsonParse_spellsWith (hnum : ∀ s, num s → LooseNumber s) (hstr : ReadsStrings str)
    {v : Value} {s : Bytes} (h : Padded (SpellsWith num str jsonMaxDepth v) s) :
    flJsonParse s = some v := by
  obtain ⟨a, t, b, ha, ht, hb, rfl⟩ := h
  have hv := parseValue_spellsWith hnum hstr jsonMaxDepth v t ht b (numberStop_of_ws hb)
  rw [← parseValue_skipWs] at hv
  rw [flJsonParse, ← parseValue_skipWs, skipWs_append_of_ws ha, hv]
  exact if_pos (skipWs_eq_nil hb)

theorem flJsonParse_spells (hstr : ReadsStrings str) {v : Value} {s : Bytes}
    (h : Padded (Spells str jsonMaxDepth v) s) : flJsonParse s = some v := by
  rw [spells_eq] at h
  exact flJsonParse_spellsWith (fun _ hnum => hnum.loose) hstr h

end

end FrostlakeOdbc
