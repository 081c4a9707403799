import FrostlakeOdbc.Lib.CString

/-!
# Reading numbers as C does

`strtoll`, `strtod` and the integer conversions of `sscanf`, on the bytes of a C string.
-/

namespace CString

/-- A sign that may stand in front of a number. -/
def isSign (c : UInt8) : Bool := c = ch '-' || c = ch '+'

/-- `strtoll(s, &end, 10)`: the value the digits spell, before it is brought into the range of a
`long long`, and what is left behind them. `none` when `end` stays at `s`. -/
def strtoll (s : Bytes) : Option (ℤ × Bytes) :=
  let s := s.dropWhile isSpace
  let sign := s.takeWhile isSign
  let s := s.drop (sign.take 1).length
  let digits := s.takeWhile isDigit
  if digits = [] then none
  else
    let n : ℤ := leadingValue 10 0 digits
    some (if sign.head? = some (ch '-') then -n else n, s.dropWhile isDigit)

/-- The conversion `%wd` of `sscanf`, and what is left behind it. -/
def sscanfInt (w : ℕ) (s : Bytes) : Option (ℤ × Bytes) :=
  let s := s.dropWhile isSpace
  let sign := (s.takeWhile isSign).take (min 1 w)
  let digits := ((s.drop sign.length).takeWhile isDigit).take (w - sign.length)
  if digits = [] then none
  else
    let n : ℤ := leadingValue 10 0 digits
    some (if sign = [ch '-'] then -n else n, s.drop (sign.length + digits.length))

/-- `sscanf(s, "%wd<sep>%2d<sep>%2d", …)`, when all three are read. -/
def sscanfThree (w : ℕ) (sep : UInt8) (s : Bytes) : Option (ℤ × ℤ × ℤ) := do
  let (first, s) ← sscanfInt w s
  if s.head? ≠ some sep then none
  let (second, s) ← sscanfInt 2 (s.drop 1)
  if s.head? ≠ some sep then none
  let (third, _) ← sscanfInt 2 (s.drop 1)
  return (first, second, third)

/-- The length of the exponent at the start of a text: `mark` in either case, a sign or none, and
digits. -/
def exponentLength (mark : Char) (s : Bytes) : ℕ :=
  match s with
  | c :: rest =>
      let sign := (rest.takeWhile isSign).take 1
      let digits := (rest.drop sign.length).takeWhile isDigit
      if toUpper c = ch mark ∧ digits ≠ [] then 1 + sign.length + digits.length else 0
  | [] => 0

/-- The length of the digits at the start of a text, with a point or none among them. -/
def pointedLength (p : UInt8 → Bool) (s : Bytes) : ℕ :=
  let int := s.takeWhile p
  let rest := s.drop int.length
  let frac := if rest.head? = some (ch '.') then (rest.drop 1).takeWhile p else []
  if int = [] ∧ frac = [] then 0
  else if rest.head? = some (ch '.') then int.length + 1 + frac.length
  else int.length

/-- The length of `NAN`, with the parenthesis that may follow it. -/
def nanLength (s : Bytes) : ℕ :=
  let body := (s.drop 4).takeWhile fun c => isUpper c || isLower c || isDigit c || c = ch '_'
  if (s.drop 3).head? = some (ch '(') ∧ (s.drop (4 + body.length)).head? = some (ch ')') then
    5 + body.length
  else 3

/-- The length of the number without a sign that `strtod` reads at the start of a text. -/
def unsignedLength (s : Bytes) : ℕ :=
  if strncaseeq s (lit "INFINITY") 8 then 8
  else if strncaseeq s (lit "INF") 3 then 3
  else if strncaseeq s (lit "NAN") 3 then nanLength s
  else
    let hex := pointedLength (fun c => (digitValue 16 c).isSome) (s.drop 2)
    if strncaseeq s (lit "0X") 2 ∧ 0 < hex then
      2 + hex + exponentLength 'P' (s.drop (2 + hex))
    else
      let decimal := pointedLength isDigit s
      if decimal = 0 then 0 else decimal + exponentLength 'E' (s.drop decimal)

/-- How much of a text `strtod` reads; 0 when it reads no number. -/
def strtodLength (s : Bytes) : ℕ :=
  let blanks := (s.takeWhile isSpace).length
  let sign := ((s.drop blanks).takeWhile isSign).take 1
  let number := unsignedLength (s.drop (blanks + sign.length))
  if number = 0 then 0 else blanks + sign.length + number

/-! ## What stands at the start of a text -/

/-- A sign or none. -/
def Sign (sign : Bytes) : Prop := sign = [] ∨ sign = [ch '-'] ∨ sign = [ch '+']

def signedValue (sign : Bytes) (n : ℕ) : ℤ := if sign = [ch '-'] then -n else n

/-- `s` begins with the integer `v` behind the white space `ws`, and `rest` follows its digits. -/
def BeginsInteger (s ws : Bytes) (v : ℤ) (rest : Bytes) : Prop :=
  ∃ sign digits, (∀ c ∈ ws, isSpace c = true) ∧ Sign sign ∧ digits ≠ [] ∧
    (∀ c ∈ digits, isDigit c = true) ∧ (∀ c ∈ rest.head?, isDigit c = false) ∧
    s = ws ++ (sign ++ (digits ++ rest)) ∧ v = signedValue sign (leadingValue 10 0 digits)

/-- The part of a text behind white space and a sign. -/
def unsignedPart (s : Bytes) : Bytes :=
  let s := s.dropWhile isSpace
  s.drop ((s.takeWhile isSign).take 1).length

/-- Behind white space and a sign, `s` begins with a digit, a point and a digit, `INF` or `NAN`. -/
def BeginsNumber (s : Bytes) : Prop :=
  (∃ c ∈ (unsignedPart s).head?, isDigit c = true) ∨
    ((unsignedPart s).head? = some (ch '.') ∧
      ∃ c ∈ ((unsignedPart s).drop 1).head?, isDigit c = true) ∨
    strncaseeq (unsignedPart s) (lit "INF") 3 = true ∨ strncaseeq (unsignedPart s) (lit "NAN") 3 = true

theorem digit_ne {c : UInt8} (h : isDigit c = true) :
    isSpace c = false ∧ isSign c = false ∧ c ≠ ch '.' ∧ c ≠ ch '-' ∧ c ≠ ch '+' := by
  revert h
  apply forall_byte (P := fun c => isDigit c = true →
    isSpace c = false ∧ isSign c = false ∧ c ≠ ch '.' ∧ c ≠ ch '-' ∧ c ≠ ch '+')
  decide +kernel

theorem Sign.isSign {sign : Bytes} (h : Sign sign) : ∀ c ∈ sign, isSign c = true := by
  rcases h with rfl | rfl | rfl <;> exact forall_mem_of_all (by decide)

/-- No white space stands in front of a number. -/
theorem Sign.isSpace_head {sign digits : Bytes} (h : Sign sign) (hne : digits ≠ [])
    (hdigits : ∀ c ∈ digits, isDigit c = true) (rest : Bytes) :
    ∀ c ∈ (sign ++ (digits ++ rest)).head?, isSpace c = false := by
  obtain ⟨d, ds, rfl⟩ := List.exists_cons_of_ne_nil hne
  intro c hc
  rcases h with rfl | rfl | rfl
  · cases hc
    exact (digit_ne (hdigits _ List.mem_cons_self)).1
  · cases hc
    decide
  · cases hc
    decide

/-- The sign that is read is the first of the signs there. -/
theorem sign_split (s : Bytes) :
    ∃ sign, Sign sign ∧ (s.takeWhile isSign).take 1 = sign ∧ s = sign ++ s.drop sign.length ∧
      ((s.takeWhile isSign).head? = some (ch '-') ↔ sign = [ch '-']) := by
  cases s with
  | nil => exact ⟨[], .inl rfl, rfl, rfl, by simp⟩
  | cons c s =>
    by_cases hsign : isSign c = true
    · have hcases : c = ch '-' ∨ c = ch '+' := by
        unfold isSign at hsign
        rwa [Bool.or_eq_true, decide_eq_true_eq, decide_eq_true_eq] at hsign
      refine ⟨[c], ?_, ?_, rfl, ?_⟩
      · rcases hcases with rfl | rfl
        · exact .inr (.inl rfl)
        · exact .inr (.inr rfl)
      · rw [List.takeWhile_cons, if_pos hsign]
        rfl
      · rw [List.takeWhile_cons, if_pos hsign, List.head?_cons]
        simp
    · refine ⟨[], .inl rfl, ?_, rfl, ?_⟩
      · rw [List.takeWhile_cons, if_neg hsign]
        rfl
      · rw [List.takeWhile_cons, if_neg hsign]
        simp

theorem strtoll_eq_some_iff {s : Bytes} {v : ℤ} {rest : Bytes} :
    strtoll s = some (v, rest) ↔ ∃ ws, BeginsInteger s ws v rest := by
  constructor
  · intro h
    unfold strtoll at h
    dsimp only at h
    obtain ⟨sign, hsign, htake, hsplit, hminus⟩ := sign_split (s.dropWhile isSpace)
    rw [htake] at h
    split at h
    · cases h
    · next hne =>
      obtain ⟨hv, hrest⟩ := Prod.mk.inj (Option.some.inj h)
      have hspaces := List.takeWhile_append_dropWhile (p := isSpace) (l := s)
      have hdigits := List.takeWhile_append_dropWhile (p := isDigit)
        (l := (s.dropWhile isSpace).drop sign.length)
      refine ⟨s.takeWhile isSpace, sign, _, fun c hc => List.mem_takeWhile_imp hc, hsign, hne,
        fun c hc => List.mem_takeWhile_imp hc, ?_, ?_, ?_⟩
      · rw [← hrest]
        exact head_dropWhile _
      · rw [← hrest, hdigits, ← hsplit, hspaces]
      · rw [← hv]
        unfold signedValue
        simp only [hminus]
  · rintro ⟨ws, sign, digits, hws, hsign, hne, hdigits, hrest, rfl, rfl⟩
    have hhead := hsign.isSpace_head hne hdigits rest
    have htake : (sign ++ (digits ++ rest)).takeWhile isSign = sign := by
      refine (takeWhile_append_stop hsign.isSign fun d hd => ?_).1
      obtain ⟨c, ds, rfl⟩ := List.exists_cons_of_ne_nil hne
      cases hd
      exact (digit_ne (hdigits _ List.mem_cons_self)).2.1
    have hlength : sign.take 1 = sign := by
      rcases hsign with rfl | rfl | rfl <;> rfl
    have hhead' : sign.head? = some (ch '-') ↔ sign = [ch '-'] := by
      rcases hsign with rfl | rfl | rfl <;> decide
    obtain ⟨htaken, hleft⟩ := takeWhile_append_stop hdigits hrest
    unfold strtoll signedValue
    simp only [(takeWhile_append_stop hws hhead).2, htake, hlength, List.drop_left, htaken, hleft,
      if_neg hne, hhead']

theorem BeginsInteger.strtoll_eq {s ws rest : Bytes} {v : ℤ} (h : BeginsInteger s ws v rest) :
    strtoll s = some (v, rest) :=
  strtoll_eq_some_iff.2 ⟨ws, h⟩

theorem BeginsInteger.takeWhile_isSpace {s ws rest : Bytes} {v : ℤ}
    (h : BeginsInteger s ws v rest) : s.takeWhile isSpace = ws := by
  obtain ⟨sign, digits, hws, hsign, hne, hdigits, -, rfl, -⟩ := h
  exact (takeWhile_append_stop hws (hsign.isSpace_head hne hdigits _)).1

/-! ## Where `strtod` reads nothing -/

theorem strncaseeq_infinity {s : Bytes} (h : strncaseeq s (lit "INFINITY") 8 = true) :
    strncaseeq s (lit "INF") 3 = true := by
  unfold strncaseeq at h ⊢
  rw [decide_eq_true_eq] at h ⊢
  have hthree := congrArg (List.take 3) h
  rw [← List.map_take, ← List.map_take, List.take_take, List.take_take] at hthree
  exact hthree

theorem takeWhile_eq_nil_iff {p : UInt8 → Bool} {s : Bytes} :
    s.takeWhile p = [] ↔ ¬∃ c ∈ s.head?, p c = true := by
  cases s with
  | nil => simp
  | cons c s =>
    rw [List.takeWhile_cons]
    by_cases hc : p c = true
    · simp [hc]
    · simp [hc]

theorem pointedLength_eq_zero_iff {p : UInt8 → Bool} {s : Bytes} :
    pointedLength p s = 0 ↔ (¬∃ c ∈ s.head?, p c = true) ∧
      ¬(s.head? = some (ch '.') ∧ ∃ c ∈ (s.drop 1).head?, p c = true) := by
  unfold pointedLength
  dsimp only
  rw [← takeWhile_eq_nil_iff, not_and, ← takeWhile_eq_nil_iff]
  by_cases hint : s.takeWhile p = []
  · rw [hint, List.length_nil, List.drop_zero]
    by_cases hpoint : s.head? = some (ch '.')
    · rw [if_pos hpoint, if_pos hpoint]
      generalize (s.drop 1).takeWhile p = frac
      by_cases hfrac : frac = []
      · rw [if_pos ⟨rfl, hfrac⟩]
        exact iff_of_true rfl ⟨rfl, fun _ => hfrac⟩
      · rw [if_neg fun h => hfrac h.2]
        exact iff_of_false (by omega) fun h => hfrac (h.2 hpoint)
    · rw [if_neg hpoint, if_pos ⟨rfl, rfl⟩]
      exact iff_of_true rfl ⟨rfl, fun h => absurd h hpoint⟩
  · have hpos := List.length_pos_iff.2 hint
    rw [if_neg fun h => hint h.1]
    constructor
    · intro h
      split at h <;> omega
    · exact fun h => absurd h.1 hint

theorem strtodLength_eq_zero_iff {s : Bytes} : strtodLength s = 0 ↔ ¬BeginsNumber s := by
  have hpart : s.drop ((s.takeWhile isSpace).length +
      (((s.drop (s.takeWhile isSpace).length).takeWhile isSign).take 1).length) = unsignedPart s := by
    have hdrop : s.drop (s.takeWhile isSpace).length = s.dropWhile isSpace := by
      conv => lhs; arg 2; rw [← List.takeWhile_append_dropWhile (p := isSpace) (l := s)]
      exact List.drop_left
    rw [← List.drop_drop, hdrop]
    rfl
  unfold strtodLength
  dsimp only
  rw [hpart]
  unfold BeginsNumber
  generalize unsignedPart s = u
  have hzero : ∀ {n k : ℕ}, (if n = 0 then 0 else k + n) = 0 ↔ n = 0 := by
    intro n k
    split <;> omega
  rw [hzero]
  unfold unsignedLength
  dsimp only
  by_cases hinfinity : strncaseeq u (lit "INFINITY") 8 = true
  · rw [if_pos hinfinity]
    exact iff_of_false (by decide) fun h => h (.inr (.inr (.inl (strncaseeq_infinity hinfinity))))
  rw [if_neg hinfinity]
  by_cases hinf : strncaseeq u (lit "INF") 3 = true
  · rw [if_pos hinf]
    exact iff_of_false (by decide) fun h => h (.inr (.inr (.inl hinf)))
  rw [if_neg hinf]
  by_cases hnan : strncaseeq u (lit "NAN") 3 = true
  · rw [if_pos hnan]
    refine iff_of_false ?_ fun h => h (.inr (.inr (.inr hnan)))
    unfold nanLength
    dsimp only
    split <;> omega
  rw [if_neg hnan]
  have hdecimal : pointedLength isDigit u = 0 ↔ ¬((∃ c ∈ u.head?, isDigit c = true) ∨
      (u.head? = some (ch '.') ∧ ∃ c ∈ (u.drop 1).head?, isDigit c = true) ∨
      strncaseeq u (lit "INF") 3 = true ∨ strncaseeq u (lit "NAN") 3 = true) := by
    rw [pointedLength_eq_zero_iff]
    simp only [hinf, hnan, or_false, not_or, Bool.false_eq_true]
  split
  · next hhex =>
    -- the zero of the 0x is a digit
    refine iff_of_false (by omega) fun h => h (.inl ?_)
    cases u with
    | nil => exact absurd hhex.1 (by decide)
    | cons c u =>
      refine ⟨c, rfl, ?_⟩
      have hzero := hhex.1
      unfold strncaseeq at hzero
      rw [decide_eq_true_eq, List.take_succ_cons, List.map_cons] at hzero
      have hc : toUpper c = ch '0' := (List.cons.inj hzero).1
      revert hc
      apply forall_byte (P := fun c => toUpper c = ch '0' → isDigit c = true)
      decide +kernel
  · rw [← hdecimal]
    split <;> omega

end CString
