import Mathlib.Data.List.TakeWhile
import Mathlib.Algebra.Order.Ring.Int
import Mathlib.Tactic.Common

/-!
# Byte texts and the C string functions

A text is a list of bytes. A C string in memory is read up to its first NUL (`cstr`), so a pointer
into a text is a suffix of it, and the end of the list stands where the terminating NUL does. The
functions of the C library that programs over such texts use are given here as the standard
describes them, in the C locale.
-/

namespace CString

abbrev Bytes := List UInt8

/-- The byte of a character constant. -/
@[simp] def ch (c : Char) : UInt8 := UInt8.ofNat c.toNat

/-- To show something of every byte, check the 256 of them. -/
theorem forall_byte {P : UInt8 → Prop} (h : ∀ n < 256, P (UInt8.ofNat n)) (c : UInt8) : P c := by
  have := h c.toNat c.toNat_lt
  rwa [UInt8.ofNat_toNat] at this

/-- To show something of the bytes of a given text, check each of them. -/
theorem forall_mem_of_all {P : UInt8 → Prop} [DecidablePred P] {s : List UInt8}
    (h : (s.all fun c => decide (P c)) = true) : ∀ c ∈ s, P c := fun c hc =>
  of_decide_eq_true (List.all_eq_true.1 h c hc)

/-- The bytes of a string literal. -/
def lit (s : String) : Bytes := s.toUTF8.data.toList

/-- The C string that starts where `s` does: everything up to the first NUL. -/
def cstr (s : Bytes) : Bytes := s.takeWhile (· ≠ 0)

theorem cstr_eq_self {s : Bytes} (h : 0 ∉ s) : cstr s = s := by
  rw [cstr, List.takeWhile_eq_self_iff]
  intro c hc
  simpa using fun e : c = 0 => h (e ▸ hc)

theorem zero_notMem_cstr (s : Bytes) : 0 ∉ cstr s := fun h => by
  simpa using List.mem_takeWhile_imp h

/-! ## The front of a text -/

theorem takeWhile_append_stop {p : UInt8 → Bool} {a s : Bytes} (ha : ∀ c ∈ a, p c = true)
    (hs : ∀ c ∈ s.head?, p c = false) :
    (a ++ s).takeWhile p = a ∧ (a ++ s).dropWhile p = s := by
  have hstop : s.takeWhile p = [] ∧ s.dropWhile p = s := by
    cases s with
    | nil => exact ⟨rfl, rfl⟩
    | cons c s =>
      rw [List.takeWhile_cons, List.dropWhile_cons, hs c rfl]
      exact ⟨rfl, rfl⟩
  rw [List.takeWhile_append_of_pos ha, List.dropWhile_append_of_pos ha, hstop.1, hstop.2,
    List.append_nil]
  exact ⟨rfl, rfl⟩

/-- A text is read up to its NUL, whatever lies behind. -/
theorem cstr_append_zero {s : Bytes} (hs : 0 ∉ s) (beyond : Bytes) : cstr (s ++ 0 :: beyond) = s := by
  refine (takeWhile_append_stop (fun c hc => ?_) fun c hc => ?_).1
  · simpa using fun e : c = 0 => hs (e ▸ hc)
  · cases hc
    simp

theorem head_dropWhile {p : UInt8 → Bool} (s : Bytes) : ∀ c ∈ (s.dropWhile p).head?, p c = false := by
  intro c hc
  have hne : s.dropWhile p ≠ [] := by
    intro h
    rw [h] at hc
    cases hc
  have hnot := List.head_dropWhile_not p (w := hne)
  rw [List.head?_eq_some_head hne] at hc
  cases hc
  exact hnot

/-! ## Character classes -/

def isDigit (c : UInt8) : Bool := ch '0' ≤ c && c ≤ ch '9'

def isUpper (c : UInt8) : Bool := ch 'A' ≤ c && c ≤ ch 'Z'

def isLower (c : UInt8) : Bool := ch 'a' ≤ c && c ≤ ch 'z'

/-- `isspace`. -/
def isSpace (c : UInt8) : Bool := c = ch ' ' || 9 ≤ c && c ≤ 13

def toUpper (c : UInt8) : UInt8 := if isLower c then c - ch 'a' + ch 'A' else c

theorem toUpper_cases (c : UInt8) : toUpper c = c ∨ isUpper (toUpper c) = true := by
  apply forall_byte (P := fun c => toUpper c = c ∨ isUpper (toUpper c) = true)
  decide +kernel

/-- A byte that is no letter in capitals is none before. -/
theorem eq_of_toUpper_eq {c d : UInt8} (hd : isUpper d = false) (h : toUpper c = d) : c = d := by
  obtain hc | hc := toUpper_cases c
  · exact hc.symm.trans h
  · rw [h, hd] at hc
    cases hc

/-! ## Searching and comparing -/

/-- `strstr` and `memmem`: where `pat` first occurs. -/
def find (pat : Bytes) : Bytes → Option ℕ
  | [] => if pat = [] then some 0 else none
  | c :: rest => if pat.isPrefixOf (c :: rest) then some 0 else (find pat rest).map (· + 1)

/-- `strcasecmp(a, b) == 0`. -/
def strcaseeq (a b : Bytes) : Bool := a.map toUpper = b.map toUpper

/-- `strncasecmp(a, b, n) == 0`. -/
def strncaseeq (a b : Bytes) (n : ℕ) : Bool := (a.take n).map toUpper = (b.take n).map toUpper

theorem strcaseeq_iff (a b : Bytes) :
    strcaseeq a b = true ↔ a.length = b.length ∧ strncaseeq a b b.length = true := by
  unfold strcaseeq strncaseeq
  rw [decide_eq_true_eq, decide_eq_true_eq, List.take_length]
  constructor
  · intro h
    have hlength : a.length = b.length := by simpa using congrArg List.length h
    refine ⟨hlength, ?_⟩
    rwa [← hlength, List.take_length]
  · rintro ⟨hlength, h⟩
    rwa [← hlength, List.take_length] at h

/-- `strcasestr(text, pat) != NULL`. -/
def strcasestr (text pat : Bytes) : Bool := (find (pat.map toUpper) (text.map toUpper)).isSome

/-! ## Where a text is found -/

theorem find_cons (pat : Bytes) (c : UInt8) (s : Bytes) :
    find pat (c :: s) = if pat <+: c :: s then some 0 else (find pat s).map (· + 1) := by
  rw [find]
  simp only [List.isPrefixOf_iff_prefix]

theorem find_of_prefix {pat s : Bytes} (h : pat <+: s) : find pat s = some 0 := by
  cases s with
  | nil => rw [find, if_pos (List.prefix_nil.1 h)]
  | cons c s => rw [find_cons, if_pos h]

theorem find_cons_of_not {pat : Bytes} {c : UInt8} {s : Bytes} (h : ¬pat <+: c :: s) :
    find pat (c :: s) = (find pat s).map (· + 1) := by
  rw [find_cons, if_neg h]

/-- Bytes the pattern does not start with are skipped. -/
theorem find_append_of_forall {p : UInt8} {pat a s : Bytes} (ha : ∀ c ∈ a, c ≠ p) :
    find (p :: pat) (a ++ s) = (find (p :: pat) s).map (· + a.length) := by
  induction a with
  | nil =>
    have hid : (fun n => n + ([] : Bytes).length) = id := rfl
    rw [hid, Option.map_id]
    rfl
  | cons c a ih =>
    have hc : ¬p :: pat <+: c :: (a ++ s) := fun h =>
      ha c (by simp) (List.cons_prefix_cons.1 h).1.symm
    rw [List.cons_append, find_cons_of_not hc, ih fun d hd => ha d (by simp [hd]), Option.map_map]
    congr 1

/-- What is found is inside the text. -/
theorem find_length {pat s : Bytes} {n : ℕ} (h : find pat s = some n) :
    n + pat.length ≤ s.length := by
  induction s generalizing n with
  | nil =>
    rw [find] at h
    split at h
    · next hp =>
      cases h
      rw [hp]
      rfl
    · cases h
  | cons c s ih =>
    rw [find_cons] at h
    split at h
    · next hp =>
      cases h
      have := hp.length_le
      omega
    · obtain ⟨m, hm, rfl⟩ := Option.map_eq_some_iff.1 h
      have := ih hm
      rw [List.length_cons]
      omega

/-- The pattern stands where it is found. -/
theorem prefix_drop_of_find {pat s : Bytes} {n : ℕ} (h : find pat s = some n) : pat <+: s.drop n := by
  induction s generalizing n with
  | nil =>
    rw [find] at h
    split at h
    · next hp =>
      rw [hp]
      exact List.nil_prefix
    · cases h
  | cons c s ih =>
    rw [find_cons] at h
    split at h
    · next hp =>
      cases h
      exact hp
    · obtain ⟨m, hm, rfl⟩ := Option.map_eq_some_iff.1 h
      exact ih hm

theorem find_append {pat s : Bytes} {n : ℕ} (h : find pat s = some n) (x : Bytes) :
    find pat (s ++ x) = some n := by
  induction s generalizing n with
  | nil =>
    rw [find] at h
    split at h
    · next hp =>
      cases h
      exact find_of_prefix (hp ▸ List.nil_prefix)
    · cases h
  | cons c s ih =>
    have hlen := find_length h
    rw [find_cons] at h
    rw [List.cons_append, find_cons]
    split at h
    · next hp =>
      cases h
      have hx : pat <+: c :: (s ++ x) := hp.trans (List.prefix_append (c :: s) x)
      rw [if_pos hx]
    · next hp =>
      obtain ⟨m, hm, rfl⟩ := Option.map_eq_some_iff.1 h
      -- a pattern that is found further on is short enough to be seen at the front
      have hno : ¬pat <+: c :: (s ++ x) := fun hx =>
        hp (List.prefix_of_prefix_length_le hx (List.prefix_append (c :: s) x) (by omega))
      rw [if_neg hno, ih hm]
      rfl

/-- What is found inside the front of a text is found there without the rest. -/
theorem find_of_append {pat a x : Bytes} {n : ℕ} (h : find pat (a ++ x) = some n)
    (hn : n + pat.length ≤ a.length) : find pat a = some n := by
  induction a generalizing n with
  | nil =>
    have hpat : pat = [] := List.eq_nil_of_length_eq_zero (by simp only [List.length_nil] at hn; omega)
    have hzero : n = 0 := by simp only [List.length_nil] at hn; omega
    rw [hpat, hzero]
    rfl
  | cons c a ih =>
    rw [List.cons_append, find_cons] at h
    rw [find_cons]
    split at h
    · next hp =>
      cases h
      have hlen : pat.length ≤ (c :: a).length := by omega
      rw [if_pos (List.prefix_of_prefix_length_le hp (List.prefix_append (c :: a) x) hlen)]
    · next hp =>
      obtain ⟨m, hm, rfl⟩ := Option.map_eq_some_iff.1 h
      have hno : ¬pat <+: c :: a := fun hx => hp (hx.trans (List.prefix_append (c :: a) x))
      rw [if_neg hno, ih hm (by rw [List.length_cons] at hn; omega)]
      rfl

/-! ## Numbers -/

/-- What reaches the buffer of `snprintf(buf, size, …)` when the whole output is `text`. -/
def snprintf (size : ℕ) (text : Bytes) : Bytes := text.take (size - 1)

theorem snprintf_of_lt {size : ℕ} {text : Bytes} (h : text.length < size) :
    snprintf size text = text := List.take_of_length_le (by omega)

/-- The digits of a natural number, as `%lu` writes them. -/
def natText (n : ℕ) : Bytes := (Nat.toDigits 10 n).map ch

/-- `%ld`. -/
def intText (n : ℤ) : Bytes := if n < 0 then ch '-' :: natText n.natAbs else natText n.natAbs

/-- `%0wu`. -/
def natTextPadded (w n : ℕ) : Bytes :=
  List.replicate (w - (natText n).length) (ch '0') ++ natText n

/-- `%0wd`: the zeros go between the sign and the digits. -/
def intTextPadded (w : ℕ) (n : ℤ) : Bytes :=
  if n < 0 then ch '-' :: natTextPadded (w - 1) n.natAbs else natTextPadded w n.natAbs

/-- The value of a digit in a base up to 16. -/
def digitValue (base : ℕ) (c : UInt8) : Option ℕ :=
  let v :=
    if isDigit c then c.toNat - 48
    else if isLower c then c.toNat - 97 + 10
    else if isUpper c then c.toNat - 65 + 10
    else base
  if v < base then some v else none

/-- The value of the leading digits of a text, after `acc`. -/
def leadingValue (base acc : ℕ) : Bytes → ℕ
  | [] => acc
  | c :: rest =>
      match digitValue base c with
      | some v => leadingValue base (acc * base + v) rest
      | none => acc

/-- The limits of a 64-bit `long`. -/
def longMax : ℤ := 2 ^ 63 - 1

def longMin : ℤ := -2 ^ 63

/-- The `0x` that may stand before hexadecimal digits. -/
def skipHexPrefix (base : ℕ) : Bytes → Bytes
  | z :: x :: d :: rest =>
      if base = 16 ∧ z = ch '0' ∧ (x = ch 'x' ∨ x = ch 'X') ∧ (digitValue 16 d).isSome then d :: rest
      else z :: x :: d :: rest
  | s => s

/-- `strtol(s, NULL, base)`: white space, a sign, for base 16 an optional `0x`, then digits; the
value saturates at the limits of a `long`. -/
def strtol (base : ℕ) (s : Bytes) : ℤ :=
  let s := s.dropWhile isSpace
  let negative := s.head? = some (ch '-')
  let s := if s.head? = some (ch '-') ∨ s.head? = some (ch '+') then s.tail else s
  let n : ℤ := leadingValue base 0 (skipHexPrefix base s)
  max longMin (min longMax (if negative then -n else n))

/-- The conversion of a `long` to an `int`. -/
def toInt (n : ℤ) : ℤ := n.bmod (2 ^ 32)

/-- `atoi`. -/
def atoi (s : Bytes) : ℤ := toInt (strtol 10 s)

theorem leadingValue_append {base acc : ℕ} {ds rest : Bytes}
    (hds : ∀ c ∈ ds, (digitValue base c).isSome = true)
    (hrest : ∀ c ∈ rest.head?, digitValue base c = none) :
    leadingValue base acc (ds ++ rest) = leadingValue base acc ds := by
  induction ds generalizing acc with
  | nil =>
    cases rest with
    | nil => rfl
    | cons c rest =>
      have := hrest c rfl
      simp only [List.nil_append, leadingValue, this]
  | cons c ds ih =>
    obtain ⟨v, hv⟩ := Option.isSome_iff_exists.1 (hds c (by simp))
    simp only [List.cons_append, leadingValue, hv]
    exact ih fun c' hc' => hds c' (by simp [hc'])

theorem digitValue_lt {base v : ℕ} {c : UInt8} (h : digitValue base c = some v) : v < base := by
  simp only [digitValue, Option.ite_none_right_eq_some, Option.some.injEq] at h
  exact h.2 ▸ h.1

theorem leadingValue_lt {base : ℕ} (hbase : 0 < base) (acc : ℕ) (s : Bytes) :
    leadingValue base acc s < (acc + 1) * base ^ s.length := by
  induction s generalizing acc with
  | nil => simp [leadingValue]
  | cons c s ih =>
    rw [leadingValue, List.length_cons]
    split
    · next v hv =>
      have hlt := digitValue_lt hv
      have hle : acc * base + v + 1 ≤ (acc + 1) * base := by
        rw [Nat.add_mul, Nat.one_mul]
        omega
      calc leadingValue base (acc * base + v) s < (acc * base + v + 1) * base ^ s.length := ih _
        _ ≤ (acc + 1) * base * base ^ s.length := Nat.mul_le_mul_right _ hle
        _ = (acc + 1) * base ^ (s.length + 1) := by
          rw [Nat.mul_assoc, Nat.pow_succ, Nat.mul_comm base]
    · have hpos : 0 < base ^ (s.length + 1) := Nat.pow_pos hbase
      calc acc < acc + 1 := Nat.lt_succ_self acc
        _ ≤ (acc + 1) * base ^ (s.length + 1) := Nat.le_mul_of_pos_right _ hpos

theorem digitValue_of_isDigit {c : UInt8} (h : isDigit c = true) :
    (digitValue 10 c).isSome = true := by
  revert h
  apply forall_byte (P := fun c => isDigit c = true → (digitValue 10 c).isSome = true)
  decide +kernel

theorem digit_facts {c : UInt8} (h : (digitValue 16 c).isSome = true) :
    isSpace c = false ∧ c ≠ ch '-' ∧ c ≠ ch '+' ∧ c ≠ ch 'x' ∧ c ≠ ch 'X' ∧ c ≠ ch '\r' := by
  revert h
  apply forall_byte (P := fun c => (digitValue 16 c).isSome = true → isSpace c = false ∧
    c ≠ ch '-' ∧ c ≠ ch '+' ∧ c ≠ ch 'x' ∧ c ≠ ch 'X' ∧ c ≠ ch '\r')
  decide +kernel

theorem digitValue_16_of_10 {c : UInt8} (h : (digitValue 10 c).isSome = true) :
    (digitValue 16 c).isSome = true := by
  revert h
  apply forall_byte (P := fun c => (digitValue 10 c).isSome = true →
    (digitValue 16 c).isSome = true)
  decide +kernel

/-- `strtol` of digits that something else follows. -/
theorem strtol_digits {base : ℕ} (hbase : base = 10 ∨ base = 16) {ds rest : Bytes} (hne : ds ≠ [])
    (hds : ∀ c ∈ ds, (digitValue base c).isSome = true)
    (hrest : ∀ c ∈ rest.head?, digitValue base c = none ∧ c ≠ ch 'x' ∧ c ≠ ch 'X') :
    strtol base (ds ++ rest) = min longMax (leadingValue base 0 ds) := by
  have hhex : ∀ c ∈ ds, (digitValue 16 c).isSome = true := by
    rcases hbase with rfl | rfl
    · exact fun c hc => digitValue_16_of_10 (hds c hc)
    · exact hds
  obtain ⟨d, ds, rfl⟩ := List.exists_cons_of_ne_nil hne
  obtain ⟨hspace, hminus, hplus, -⟩ := digit_facts (hhex d (by simp))
  have hdrop : ((d :: ds) ++ rest).dropWhile isSpace = (d :: ds) ++ rest := by
    rw [List.cons_append, List.dropWhile_cons, hspace]
    rfl
  -- a second byte that is an x is neither a digit nor what may follow
  have hprefix : skipHexPrefix base ((d :: ds) ++ rest) = (d :: ds) ++ rest := by
    have hx : ∀ z x r, (d :: ds) ++ rest = z :: x :: r → ¬(x = ch 'x' ∨ x = ch 'X') := by
      intro z x r he
      cases ds with
      | nil =>
        obtain ⟨rfl, rfl⟩ := List.cons.inj he
        obtain ⟨-, h₁, h₂⟩ := hrest x rfl
        exact fun h => h.elim h₁ h₂
      | cons e ds =>
        obtain ⟨-, htail⟩ := List.cons.inj he
        obtain ⟨rfl, -⟩ := List.cons.inj htail
        obtain ⟨-, -, -, h₁, h₂, -⟩ := digit_facts (hhex e (by simp))
        exact fun h => h.elim h₁ h₂
    generalize (d :: ds) ++ rest = s at hx
    unfold skipHexPrefix
    split
    · rw [if_neg]
      rintro ⟨-, -, h, -⟩
      exact hx _ _ _ rfl h
    · rfl
  have hhead : ((d :: ds) ++ rest).head? = some d := rfl
  have hsign : ¬(some d = some (ch '-') ∨ some d = some (ch '+')) := by
    rintro (h | h)
    · exact hminus (Option.some.inj h)
    · exact hplus (Option.some.inj h)
  have hneg : ¬some d = some (ch '-') := fun h => hminus (Option.some.inj h)
  have hval : leadingValue base 0 ((d :: ds) ++ rest) = leadingValue base 0 (d :: ds) :=
    leadingValue_append hds fun c hc => (hrest c hc).1
  simp only [strtol, hdrop, hhead, if_neg hsign, if_neg hneg, hprefix, hval]
  have h0 : longMin ≤ min longMax (leadingValue base 0 (d :: ds) : ℤ) := by
    unfold longMin longMax
    omega
  exact max_eq_right h0

theorem toInt_of_lt {n : ℕ} (h : n < 2 ^ 31) : toInt n = n := by
  exact Int.bmod_eq_of_le (by omega) (by omega)

theorem isDigit_of_mem_natText {n : ℕ} {c : UInt8} (h : c ∈ natText n) : isDigit c = true := by
  obtain ⟨d, hd, rfl⟩ := List.mem_map.1 h
  have hdig := Nat.isDigit_of_mem_toDigits (by decide) (by decide) hd
  simp only [Char.isDigit, Bool.and_eq_true, decide_eq_true_eq] at hdig
  obtain ⟨h₁, h₂⟩ := hdig
  have h₁' : 48 ≤ d.toNat := by simpa using UInt32.le_iff_toNat_le.1 h₁
  have h₂' : d.toNat ≤ 57 := by simpa using UInt32.le_iff_toNat_le.1 h₂
  simp only [isDigit, ch, Bool.and_eq_true, decide_eq_true_eq, UInt8.le_iff_toNat_le,
    UInt8.toNat_ofNat', Char.reduceToNat]
  omega

theorem natText_ne_nil (n : ℕ) : natText n ≠ [] := by
  simp [natText, Nat.toDigits_ne_nil]

theorem ch_digitChar : ∀ d < 10, ch (Nat.digitChar d) = UInt8.ofNat (48 + d) := by decide

/-- The digits of a number, from the right. -/
theorem natText_eq_if (n : ℕ) :
    natText n = if n < 10 then [UInt8.ofNat (48 + n)]
      else natText (n / 10) ++ [UInt8.ofNat (48 + n % 10)] := by
  unfold natText
  rw [Nat.toDigits_eq_if (by decide)]
  split
  · next h => rw [List.map_singleton, ch_digitChar n h]
  · rw [List.map_append, List.map_singleton, ch_digitChar _ (Nat.mod_lt _ (by decide))]

/-- Only zero is written with a zero in front. -/
theorem natText_of_head_zero {n : ℕ} (h : (natText n).head? = some (ch '0')) : n = 0 := by
  induction n using Nat.strongRecOn with
  | ind n ih =>
    rw [natText_eq_if] at h
    split at h
    · next hlt =>
      have hdigit : ∀ d < 10, [UInt8.ofNat (48 + d)].head? = some (ch '0') → d = 0 := by decide
      exact hdigit n hlt h
    · next hge =>
      obtain ⟨c, rest, hc⟩ := List.exists_cons_of_ne_nil (natText_ne_nil (n / 10))
      rw [hc] at h
      have := ih (n / 10) (by omega) (by rw [hc]; exact h)
      omega

theorem length_natText_le {n k : ℕ} (hk : 0 < k) (h : n < 10 ^ k) : (natText n).length ≤ k := by
  rw [natText, List.length_map]
  exact (Nat.length_toDigits_le_iff (by decide) hk).2 h

theorem length_intText_le {n : ℤ} {k : ℕ} (hk : 0 < k) (h : n.natAbs < 10 ^ k) :
    (intText n).length ≤ k + 1 := by
  have hlen := length_natText_le hk h
  unfold intText
  split_ifs
  · exact Nat.succ_le_succ hlen
  · exact Nat.le_succ_of_le hlen

end CString
