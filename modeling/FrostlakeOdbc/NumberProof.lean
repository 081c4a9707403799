import FrostlakeOdbc.NumericText
import FrostlakeOdbc.Results

/-!
# Cells as numbers

The nine integer targets share one parse of 64 bits (`parseInteger_eq_value_iff`), and each its own
bounds. A target delivers the value or refuses it exactly where its bounds are the range of its type
(`convertCell_delivers_iff`); what is no number is refused as such exactly where the parser of the
target does not read a number in front of it (`convertCell_rejects_iff`).
-/

namespace FrostlakeOdbc

open CString

/-! ## What is parsed -/

def inLong (v : ℤ) : Prop := longMin ≤ v ∧ v ≤ longMax

/-- What may follow the digits of an integer: a point and digits, or neither, and spaces. -/
def DecimalTail (rest : Bytes) : Prop :=
  ∃ frac blanks, rest = frac ++ blanks ∧
    (frac = [] ∨ ∃ digits, frac = ch '.' :: digits ∧ ∀ c ∈ digits, isDigit c = true) ∧
    ∀ c ∈ blanks, c = ch ' '

/-- What is left behind a point and digits. -/
def behindFraction (rest : Bytes) : Bytes :=
  if rest.head? = some (ch '.') then (rest.drop 1).dropWhile isDigit else rest

theorem dropWhile_blank_eq_nil_iff {s : Bytes} :
    s.dropWhile (fun c => c = ch ' ') = [] ↔ ∀ c ∈ s, c = ch ' ' := by
  rw [List.dropWhile_eq_nil_iff]
  simp only [decide_eq_true_eq]

theorem decimalTail_iff {rest : Bytes} :
    DecimalTail rest ↔ ∀ c ∈ behindFraction rest, c = ch ' ' := by
  unfold DecimalTail behindFraction
  constructor
  · rintro ⟨frac, blanks, rfl, rfl | ⟨digits, rfl, hdigits⟩, hblanks⟩
    · have hpoint : ([] ++ blanks).head? ≠ some (ch '.') := by
        intro h
        have := hblanks _ (List.mem_of_mem_head? h)
        revert this
        decide
      rw [if_neg hpoint]
      exact hblanks
    · have hstop : ∀ c ∈ blanks.head?, isDigit c = false := by
        intro c hc
        rw [hblanks c (List.mem_of_mem_head? hc)]
        decide
      have hpoint : (ch '.' :: digits ++ blanks).head? = some (ch '.') := rfl
      rw [if_pos hpoint]
      show ∀ c ∈ (digits ++ blanks).dropWhile isDigit, c = ch ' '
      rw [(takeWhile_append_stop hdigits hstop).2]
      exact hblanks
  · intro h
    by_cases hpoint : rest.head? = some (ch '.')
    · rw [if_pos hpoint] at h
      obtain ⟨rest, rfl⟩ := List.head?_eq_some_iff.1 hpoint
      have hsplit := List.takeWhile_append_dropWhile (p := isDigit) (l := rest)
      refine ⟨ch '.' :: rest.takeWhile isDigit, rest.dropWhile isDigit, ?_,
        .inr ⟨_, rfl, fun c hc => List.mem_takeWhile_imp hc⟩, h⟩
      rw [List.cons_append, hsplit]
    · rw [if_neg hpoint] at h
      exact ⟨[], rest, rfl, .inl rfl, h⟩

theorem parseInteger_eq (text : Bytes) :
    parseInteger text =
      match strtoll text with
      | none => .notNumber
      | some (value, rest) =>
          if value < longMin ∨ longMax < value then .outOfRange
          else if (behindFraction rest).dropWhile (fun c => c = ch ' ') = [] then .value value
          else .notNumber := rfl

/-- The text begins, behind white space, with an integer that no `long long` holds. -/
def Overflows (text : Bytes) : Prop := ∃ ws v rest, BeginsInteger text ws v rest ∧ ¬inLong v

/-- The text is a decimal number, behind white space and before spaces. -/
def IsDecimal (text : Bytes) : Prop := ∃ ws v rest, BeginsInteger text ws v rest ∧ DecimalTail rest

theorem not_inLong_iff {v : ℤ} : ¬inLong v ↔ v < longMin ∨ longMax < v := by
  unfold inLong
  omega

theorem parseInteger_of_begins {text ws rest : Bytes} {v : ℤ} (h : BeginsInteger text ws v rest)
    (htail : DecimalTail rest) :
    parseInteger text = if longMin ≤ v ∧ v ≤ longMax then .value v else .outOfRange := by
  have hblank := dropWhile_blank_eq_nil_iff.2 (decimalTail_iff.1 htail)
  rw [parseInteger_eq, h.strtoll_eq]
  dsimp only
  rw [if_pos hblank]
  split_ifs <;> first | rfl | omega

theorem parseInteger_eq_notNumber_iff {text : Bytes} :
    parseInteger text = .notNumber ↔ ¬Overflows text ∧ ¬IsDecimal text := by
  rw [parseInteger_eq]
  cases hread : strtoll text with
  | none =>
    refine iff_of_true rfl ⟨?_, ?_⟩
    · rintro ⟨ws, v, rest, h, -⟩
      rw [h.strtoll_eq] at hread
      cases hread
    · rintro ⟨ws, v, rest, h, -⟩
      rw [h.strtoll_eq] at hread
      cases hread
  | some one =>
    obtain ⟨v, rest⟩ := one
    obtain ⟨ws, hbegins⟩ := strtoll_eq_some_iff.1 hread
    have hsame : ∀ {ws' v' rest'}, BeginsInteger text ws' v' rest' → v' = v ∧ rest' = rest := by
      intro ws' v' rest' h
      rw [h.strtoll_eq] at hread
      cases hread
      exact ⟨rfl, rfl⟩
    dsimp only
    by_cases hrange : v < longMin ∨ longMax < v
    · rw [if_pos hrange]
      refine iff_of_false (by decide) fun h => h.1 ⟨ws, v, rest, hbegins, not_inLong_iff.2 hrange⟩
    have hfits : ¬Overflows text := by
      rintro ⟨ws', v', rest', h, hout⟩
      rw [(hsame h).1, not_inLong_iff] at hout
      exact hrange hout
    rw [if_neg hrange]
    by_cases hblank : (behindFraction rest).dropWhile (fun c => c = ch ' ') = []
    · rw [if_pos hblank]
      have htail := decimalTail_iff.2 (dropWhile_blank_eq_nil_iff.1 hblank)
      exact iff_of_false (by simp) fun h => h.2 ⟨ws, v, rest, hbegins, htail⟩
    · rw [if_neg hblank]
      refine iff_of_true rfl ⟨hfits, ?_⟩
      rintro ⟨ws', v', rest', h, htail⟩
      rw [(hsame h).2] at htail
      exact hblank (dropWhile_blank_eq_nil_iff.2 (decimalTail_iff.1 htail))

/-! ## The integer types -/

/-- An integer type of C. -/
structure IntegerType where
  size : ℕ
  signed : Bool

namespace IntegerType

variable (ty : IntegerType)

/-- The number of its values. -/
def card : ℤ := 2 ^ (8 * ty.size)

def low : ℤ := if ty.signed then -(ty.card / 2) else 0

def high : ℤ := if ty.signed then ty.card / 2 - 1 else ty.card - 1

/-- What its bits are, read at the type. -/
def read (bits : ℕ) : ℤ := if ty.signed && ty.card / 2 ≤ bits then bits - ty.card else bits

end IntegerType

/-- The type that an integer target names. -/
def CType.integerType : CType → Option IntegerType
  | .slong => some ⟨4, true⟩
  | .ulong => some ⟨4, false⟩
  | .sshort => some ⟨2, true⟩
  | .ushort => some ⟨2, false⟩
  | .stinyint | .tinyint => some ⟨1, true⟩
  | .utinyint => some ⟨1, false⟩
  | .sbigint => some ⟨8, true⟩
  | .ubigint => some ⟨8, false⟩
  | _ => none

/-- The bounds that `convert_cell` gives an integer target. -/
def CType.bounds : CType → ℤ × ℤ
  | .slong => (-2 ^ 31, 2 ^ 31 - 1)
  | .ulong => (0, 2 ^ 32 - 1)
  | .sshort => (-2 ^ 15, 2 ^ 15 - 1)
  | .ushort => (0, 2 ^ 16 - 1)
  | .stinyint | .tinyint | .utinyint => (-128, 255)
  | _ => (longMin, longMax)

/-- The C type that a cell of a column is converted to. -/
def cellCType (column : Column) (target : Target) : CType :=
  if target.cType = .default then defaultCType column.sqlType else target.cType

section

variable {column : Column} {cell : Cell} {target : Target} {text behind : Bytes} {offset : Option ℕ}
  {ty : IntegerType}

theorem convertText_integer {cType : CType} (h : cType.integerType = some ty) (sqlType : SqlType) :
    convertText behind sqlType text target cType offset =
      convertInteger cType.bounds.1 cType.bounds.2 ty.size text target offset := by
  cases cType <;> cases h <;> rfl

/-- A text that is no boolean, or no cell of one, is converted as it stands. -/
theorem convertCell_text (hnull : cell.isNull = false) (htext : cell.text = some text)
    (hbool : booleanText text = text ∨ cell.kind ≠ 'b') :
    convertCell behind column cell target offset =
      convertText behind column.sqlType text target (cellCType column target) offset := by
  have hsame : (if cell.kind = 'b' ∧ cellCType column target ≠ .char ∧
      cellCType column target ≠ .binary then booleanText text else text) = text := by
    split
    · next hkind => exact hbool.resolve_right fun h => h hkind.1
    · rfl
  unfold convertCell
  rw [hnull, if_neg Bool.false_ne_true, htext, Option.getD_some]
  exact congrArg (convertText behind column.sqlType · target (cellCType column target) offset) hsame

/-! ## Deliver or refuse -/

/-- A cell text that is an optional sign, digits, and an optional point with digits; `v` is what it
comes to, truncated toward zero. -/
def IsInteger (text : Bytes) (v : ℤ) : Prop :=
  ∃ sign digits frac, Sign sign ∧ digits ≠ [] ∧ (∀ c ∈ digits, isDigit c = true) ∧
    (frac = [] ∨ ∃ ds, frac = ch '.' :: ds ∧ ∀ c ∈ ds, isDigit c = true) ∧
    text = sign ++ (digits ++ frac) ∧ v = signedValue sign (leadingValue 10 0 digits)

/-- A conversion stores the value, or reports that it is out of the range of its type and stores
nothing. -/
def DeliversInteger (ty : IntegerType) (v : ℤ) (target : Target) (one : Conversion) : Prop :=
  if ty.low ≤ v ∧ v ≤ ty.high then
    one.ret = .success ∧
      (target.buffer = true → ∃ bits, one.stored = some (.integer ty.size bits) ∧ ty.read bits = v)
  else (∃ diag, one.ret = .error diag ∧ diag.sqlstate = lit "22003") ∧ one.stored = none

/-- The values that a target takes for what they are not, or refuses although they are in range. -/
def misreads : CType → ℤ → Bool
  | .stinyint, v | .tinyint, v => 128 ≤ v && v ≤ 255
  | .utinyint, v => -128 ≤ v && v < 0
  | .ubigint, v => (-2 ^ 63 ≤ v && v < 0) || (2 ^ 63 ≤ v && v < 2 ^ 64)
  | _, _ => false

/-- A value of a type is stored as it is. -/
theorem IntegerType.read_stored {v : ℤ} (hsize : 0 < ty.size) (hlow : ty.low ≤ v) (hhigh : v ≤ ty.high) :
    ty.read (v % 2 ^ (8 * ty.size)).toNat = v := by
  have hcard : (2 : ℤ) ^ (8 * ty.size) = ty.card := rfl
  have hhalf : ty.card = 2 * (ty.card / 2) := by
    obtain ⟨k, hk⟩ : ∃ k, 8 * ty.size = k + 1 := ⟨8 * ty.size - 1, by omega⟩
    rw [IntegerType.card, hk, pow_succ]
    omega
  have hpos : 0 < ty.card := by
    unfold IntegerType.card
    exact pow_pos two_pos _
  unfold IntegerType.low at hlow
  unfold IntegerType.high at hhigh
  unfold IntegerType.read
  rw [hcard]
  by_cases hneg : v < 0
  · have hmod : v % ty.card = v + ty.card := by
      rw [← Int.add_emod_right]
      apply Int.emod_eq_of_lt
      · split at hlow <;> omega
      · omega
    cases hsigned : ty.signed with
    | false =>
      rw [hsigned, if_neg Bool.false_ne_true] at hlow
      omega
    | true =>
      rw [hsigned, if_pos rfl] at hlow
      rw [hmod, Bool.true_and, if_pos (by rw [decide_eq_true_eq]; omega)]
      omega
  · have hmod : v % ty.card = v := by
      apply Int.emod_eq_of_lt
      · omega
      · split at hhigh <;> omega
    rw [hmod, if_neg]
    · omega
    · rw [Bool.and_eq_true, decide_eq_true_eq]
      rintro ⟨hsigned, hle⟩
      rw [hsigned, if_pos rfl] at hhigh
      omega

/-- A target delivers exactly the values on which its bounds and the range of its type agree. -/
theorem convertInteger_delivers_iff {low high v : ℤ} (hsize : 0 < ty.size)
    (hlow : longMin ≤ low) (hhigh : high ≤ longMax)
    (hparse : parseInteger text = if longMin ≤ v ∧ v ≤ longMax then .value v else .outOfRange) :
    DeliversInteger ty v target (convertInteger low high ty.size text target offset) ↔
      ((low ≤ v ∧ v ≤ high) ↔ (ty.low ≤ v ∧ v ≤ ty.high)) := by
  have hconvert : convertInteger low high ty.size text target offset =
      if low ≤ v ∧ v ≤ high then
        fixed target offset ty.size (.integer ty.size (v % 2 ^ (8 * ty.size)).toNat)
      else outOfRange offset := by
    unfold convertInteger
    rw [hparse]
    by_cases hlong : longMin ≤ v ∧ v ≤ longMax
    · rw [if_pos hlong]
      dsimp only
      split_ifs <;> first | rfl | omega
    · rw [if_neg hlong, if_neg (by omega)]
  rw [hconvert]
  unfold DeliversInteger
  by_cases haccept : low ≤ v ∧ v ≤ high
  · rw [if_pos haccept, iff_true_left haccept]
    by_cases hrange : ty.low ≤ v ∧ v ≤ ty.high
    · rw [if_pos hrange]
      refine iff_of_true ⟨rfl, fun hbuffer => ⟨_, ?_, ty.read_stored hsize hrange.1 hrange.2⟩⟩ hrange
      unfold fixed
      rw [if_pos hbuffer]
    · rw [if_neg hrange]
      refine iff_of_false ?_ hrange
      rintro ⟨⟨diag, hret, -⟩, -⟩
      cases hret
  · rw [if_neg haccept, iff_false_left haccept]
    by_cases hrange : ty.low ≤ v ∧ v ≤ ty.high
    · rw [if_pos hrange]
      refine iff_of_false ?_ fun h => h hrange
      rintro ⟨hret, -⟩
      cases hret
    · rw [if_neg hrange]
      exact iff_of_true ⟨⟨_, rfl, rfl⟩, rfl⟩ hrange

theorem IsInteger.begins {v : ℤ} (h : IsInteger text v) :
    ∃ rest, BeginsInteger text [] v rest ∧ DecimalTail rest := by
  obtain ⟨sign, digits, frac, hsign, hne, hdigits, hfrac, rfl, rfl⟩ := h
  refine ⟨frac, ⟨sign, digits, fun c hc => absurd hc List.not_mem_nil, hsign, hne, hdigits, ?_, rfl,
    rfl⟩, frac, [], (List.append_nil frac).symm, hfrac, fun c hc => absurd hc List.not_mem_nil⟩
  rcases hfrac with rfl | ⟨ds, rfl, -⟩
  · intro c hc
    cases hc
  · intro c hc
    cases hc
    decide

theorem IsInteger.booleanText {v : ℤ} (h : IsInteger text v) : booleanText text = text := by
  obtain ⟨rest, hbegins, -⟩ := h.begins
  have hread := hbegins.strtoll_eq
  unfold FrostlakeOdbc.booleanText
  split_ifs with htrue hfalse
  · rw [htrue] at hread
    revert hread
    simp [show strtoll (lit "true") = none by decide]
  · rw [hfalse] at hread
    revert hread
    simp [show strtoll (lit "false") = none by decide]
  · rfl

/-- An integer target delivers the value of a cell or refuses it, except for the values it
misreads. -/
theorem convertCell_delivers_iff {v : ℤ} (hnull : cell.isNull = false) (htext : cell.text = some text)
    (hinteger : IsInteger text v) (htype : (cellCType column target).integerType = some ty) :
    DeliversInteger ty v target (convertCell behind column cell target offset) ↔
      misreads (cellCType column target) v = false := by
  obtain ⟨rest, hbegins, htail⟩ := hinteger.begins
  have hparse := parseInteger_of_begins hbegins htail
  rw [convertCell_text hnull htext (.inl hinteger.booleanText), convertText_integer htype]
  generalize cellCType column target = cType at htype ⊢
  cases cType <;> cases htype <;>
    rw [convertInteger_delivers_iff (by decide) (by decide) (by decide) hparse] <;>
    simp only [CType.bounds, misreads, IntegerType.low, IntegerType.high, IntegerType.card, longMin,
      longMax, reduceIte, Bool.false_eq_true, Nat.reduceMul, Int.reducePow, Bool.or_eq_false_iff,
      Bool.and_eq_false_iff, decide_eq_false_iff_not, iff_true] <;>
    omega

end

/-- A column that nothing is known of. -/
def plainColumn : Column :=
  { name := [], typeName := none, sqlType := .varchar, precision := 0, scale := 0, length := 0 }

/-- A cell with a text, and a target of a type. -/
def textCell (text : String) : Cell := ⟨some (lit text), 's', false⟩

def targetOf (cType : CType) : Target := ⟨cType, true, 0, true⟩

theorem convertCell_delivers_negative :
    DeliversInteger ⟨1, true⟩ (-5) (targetOf .stinyint)
      (convertCell [] plainColumn (textCell "-5.9") (targetOf .stinyint) none) :=
  (convertCell_delivers_iff rfl rfl
    ⟨lit "-", lit "5", lit ".9", .inr (.inl rfl), by decide, forall_mem_of_all (by decide),
      .inr ⟨lit "9", rfl, forall_mem_of_all (by decide)⟩, rfl, rfl⟩ rfl).2 rfl

/-- A signed byte takes 200 for -56. -/
theorem convertCell_misreads_byte :
    IsInteger (lit "200") 200 ∧ ¬DeliversInteger ⟨1, true⟩ 200 (targetOf .stinyint)
      (convertCell [] plainColumn (textCell "200") (targetOf .stinyint) none) := by
  refine ⟨⟨[], lit "200", [], .inl rfl, by decide, forall_mem_of_all (by decide), .inl rfl, rfl, rfl⟩, ?_⟩
  unfold DeliversInteger
  rw [if_neg (by decide)]
  rintro ⟨⟨diag, hret, -⟩, -⟩
  have hsuccess : (convertCell [] plainColumn (textCell "200") (targetOf .stinyint) none).ret = .success := by
    decide
  rw [hsuccess] at hret
  cases hret

/-! ## What is no number -/

/-- A spelling of infinity or NaN. -/
def isInfinityOrNan (text : Bytes) : Bool :=
  let s := dropSign (trimBlanks text)
  strcaseeq s (lit "INF") || strcaseeq s (lit "INFINITY") ||
    strncaseeq s (lit "NAN") 3 && nanLength s = s.length

/-- A text that spells no number, and neither infinity nor NaN. -/
def isGarbage (text : Bytes) : Bool := !isNumericLiteral text && !isInfinityOrNan text

/-- A conversion that reports the text as no number and stores nothing. -/
def Rejects (one : Conversion) : Prop :=
  (∃ diag, one.ret = .error diag ∧ diag.sqlstate = lit "22018") ∧ one.stored = none

/-- A numeric target. -/
def CType.isNumeric (cType : CType) : Prop :=
  (∃ ty, cType.integerType = some ty) ∨ cType = .float ∨ cType = .double

/-- What a target reads in front of a text: a floating-point target any number, an integer target one
that is too large, or a decimal number behind a line end or the like. -/
def readsFront (cType : CType) (text : Bytes) : Prop :=
  if cType = .float ∨ cType = .double then BeginsNumber text
  else Overflows text ∨ (IsDecimal text ∧ ∃ c ∈ text.takeWhile isSpace, isParamBlank c = false)

theorem isNumericLiteral_of_decimal {text ws rest : Bytes} {v : ℤ} (h : BeginsInteger text ws v rest)
    (htail : DecimalTail rest) (hws : ∀ c ∈ ws, isParamBlank c = true) :
    isNumericLiteral text = true := by
  obtain ⟨sign, digits, -, hsign, hne, hdigits, -, rfl, -⟩ := h
  obtain ⟨frac, blanks, rfl, hfrac, hblanks⟩ := htail
  have hmantissa : Mantissa (digits ++ frac) := by
    rcases hfrac with rfl | ⟨ds, rfl, hds⟩
    · rw [List.append_nil]
      exact .whole hne hdigits
    · exact .pointed (by simp [hne]) hdigits hds
  have hnumber := NumericText.mk (paramBlanks_iff.2 hws) hsign (.mk hmantissa .none)
    fun c hc => .inl (hblanks c hc)
  rw [List.append_nil, List.append_assoc, List.append_assoc] at hnumber
  exact isNumericLiteral_iff.2 hnumber

/-- Garbage reads as a decimal number only behind white space that does not belong to a number. -/
theorem exists_nonblank_of_isDecimal {text : Bytes} (hgarbage : isGarbage text = true)
    (h : IsDecimal text) : ∃ c ∈ text.takeWhile isSpace, isParamBlank c = false := by
  obtain ⟨ws, v, rest, hbegins, htail⟩ := h
  rw [hbegins.takeWhile_isSpace]
  by_contra hblank
  simp only [not_exists, not_and, Bool.not_eq_false] at hblank
  unfold isGarbage at hgarbage
  rw [isNumericLiteral_of_decimal hbegins htail hblank] at hgarbage
  cases hgarbage

theorem rejects_invalidNumber (offset : Option ℕ) (text : Bytes) : Rejects (invalidNumber offset text) :=
  ⟨⟨_, rfl, rfl⟩, rfl⟩

section

variable {text : Bytes} {target : Target} {offset : Option ℕ}

theorem convertInteger_rejects_iff (low high : ℤ) (size : ℕ) :
    Rejects (convertInteger low high size text target offset) ↔ parseInteger text = .notNumber := by
  unfold convertInteger
  cases hparse : parseInteger text with
  | notNumber => exact iff_of_true (rejects_invalidNumber offset text) rfl
  | outOfRange =>
    refine iff_of_false ?_ (by decide)
    rintro ⟨⟨diag, hret, hstate⟩, -⟩
    cases hret
    revert hstate
    decide
  | value n =>
    refine iff_of_false ?_ (by simp)
    rintro ⟨⟨diag, hret, hstate⟩, -⟩
    dsimp only at hret
    split at hret
    · cases hret
      revert hstate
      decide
    · cases hret

theorem convertFloating_rejects_iff (size : ℤ) (store : Bytes → Stored) :
    Rejects (convertFloating size store text target offset) ↔ ¬BeginsNumber text := by
  rw [← strtodLength_eq_zero_iff]
  unfold convertFloating
  split
  · next hzero => exact iff_of_true (rejects_invalidNumber offset text) hzero
  · next hread =>
    refine iff_of_false ?_ hread
    rintro ⟨⟨diag, hret, -⟩, -⟩
    cases hret

end

/-- A numeric target rejects what is no number, unless it reads a number in front of it. -/
theorem convertCell_rejects_iff {column : Column} {cell : Cell} {target : Target} {text behind : Bytes}
    {offset : Option ℕ} (hnull : cell.isNull = false) (hbool : cell.kind ≠ 'b')
    (htext : cell.text = some text) (hgarbage : isGarbage text = true)
    (htype : (cellCType column target).isNumeric) :
    Rejects (convertCell behind column cell target offset) ↔
      ¬readsFront (cellCType column target) text := by
  rw [convertCell_text hnull htext (.inr hbool)]
  generalize cellCType column target = cType at htype ⊢
  unfold readsFront
  rcases htype with ⟨ty, htype⟩ | rfl | rfl
  · have hinteger : ¬(cType = .float ∨ cType = .double) := by
      rintro (rfl | rfl) <;> cases htype
    rw [if_neg hinteger, convertText_integer htype, convertInteger_rejects_iff,
      parseInteger_eq_notNumber_iff, not_or]
    refine and_congr_right fun _ => not_congr ?_
    exact ⟨fun h => ⟨h, exists_nonblank_of_isDecimal hgarbage h⟩, And.left⟩
  · rw [if_pos (.inl rfl)]
    exact convertFloating_rejects_iff _ _
  · rw [if_pos (.inr rfl)]
    exact convertFloating_rejects_iff _ _

theorem convertCell_rejects_tail :
    Rejects (convertCell [] plainColumn (textCell "12abc") (targetOf .slong) none) := by
  refine (convertCell_rejects_iff rfl (by decide) rfl (by decide) (.inl ⟨_, rfl⟩)).2 ?_
  have hparse : parseInteger (lit "12abc") = .notNumber := by decide
  obtain ⟨hfits, hdecimal⟩ := parseInteger_eq_notNumber_iff.1 hparse
  rintro (h | ⟨h, -⟩)
  · exact hfits h
  · exact hdecimal h

/-- Garbage with a number in front of it is read as a double. -/
theorem convertCell_accepts_tail :
    isGarbage (lit "12abc") = true ∧
      ¬Rejects (convertCell [] plainColumn (textCell "12abc") (targetOf .double) none) := by
  refine ⟨by decide, ?_⟩
  rintro ⟨⟨diag, hret, -⟩, -⟩
  have hsuccess : (convertCell [] plainColumn (textCell "12abc") (targetOf .double) none).ret = .success := by
    decide
  rw [hsuccess] at hret
  cases hret

end FrostlakeOdbc
