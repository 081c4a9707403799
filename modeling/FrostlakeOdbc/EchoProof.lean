import FrostlakeOdbc.BinaryProof
import FrostlakeOdbc.NumberProof
import FrostlakeOdbc.SplicedNumber
import FrostlakeOdbc.TemporalRoundTrip

/-!
# Parameters that come back

What the literal of a parameter says is read back from a cell that holds it, through the C type the
parameter was bound as: an integer of every type, but an unsigned one of 64 bits only below `2 ^ 63`
(`integer_round_trip`), and bytes, in buffers of any sizes (`binary_round_trip`).
-/

namespace FrostlakeOdbc

open CString

/-! ## Integers -/

/-- The C type of an integer parameter, and its value. -/
def CValue.integer : CValue → Option (CType × ℤ)
  | .slong n => some (.slong, n.toInt)
  | .ulong n => some (.ulong, n.toNat)
  | .sshort n => some (.sshort, n.toInt)
  | .ushort n => some (.ushort, n.toNat)
  | .stinyint n => some (.stinyint, n.toInt)
  | .utinyint n => some (.utinyint, n.toNat)
  | .sbigint n => some (.sbigint, n.toInt)
  | .ubigint n => some (.ubigint, n.toNat)
  | _ => none

theorem isInteger_intText (n : ℤ) : IsInteger (intText n) n := by
  have hdigits : ∀ c ∈ natText n.natAbs, isDigit c = true := fun _ hc => isDigit_of_mem_natText hc
  unfold intText
  split
  · refine ⟨[ch '-'], natText n.natAbs, [], .inr (.inl rfl), natText_ne_nil _, hdigits, .inl rfl,
      by simp, ?_⟩
    rw [leadingValue_natText, signedValue, if_pos rfl]
    omega
  · refine ⟨[], natText n.natAbs, [], .inl rfl, natText_ne_nil _, hdigits, .inl rfl, by simp, ?_⟩
    rw [leadingValue_natText, signedValue, if_neg (by decide)]
    omega

theorem intText_natCast (n : ℕ) : intText n = natText n := by
  unfold intText
  rw [if_neg (by omega), Int.natAbs_natCast]

theorem withoutParens_printedInt {n : ℤ} (h : n.natAbs < 10 ^ 20) :
    withoutParens (appendNumber (printedNumber (intText n))) = intText n := by
  have hnumber := isNumericLiteral_of_g (gFinite_intText n)
  have hlength := (length_intText_le (by decide) h).trans_lt (by decide : 20 + 1 < paramTextSize)
  rw [printedNumber_of_length hlength, withoutParens_appendNumber (head_of_isNumericLiteral hnumber)]

theorem withoutParens_printedNat {n : ℕ} (h : n < 10 ^ 20) :
    withoutParens (printedNumber (natText n)) = intText n := by
  have hnumber := isNumericLiteral_of_g (gFinite_natText n)
  have hlength := (length_natText_le (by decide) h).trans_lt (by decide : 20 < paramTextSize)
  rw [printedNumber_of_length hlength, withoutParens_of_number hnumber, intText_natCast]

/-- An integer parameter is in the range of its C type. -/
theorem CValue.integer_range {value : CValue} {cType : CType} {n : ℤ}
    (h : value.integer = some (cType, n)) {ty : IntegerType} (hty : cType.integerType = some ty) :
    ty.low ≤ n ∧ n ≤ ty.high := by
  unfold IntegerType.low IntegerType.high IntegerType.card
  cases value with
  | slong n | sshort n | stinyint n | sbigint n =>
    have hlow := n.le_toInt
    have hhigh := n.toInt_lt
    cases h
    cases hty
    simp only [reduceIte]
    omega
  | ulong n | ushort n | utinyint n | ubigint n =>
    have hhigh := n.toNat_lt
    cases h
    cases hty
    simp only [reduceIte, Bool.false_eq_true]
    omega
  | _ => cases h

theorem withoutParens_integer {value : CValue} {cType : CType} {n : ℤ}
    (h : value.integer = some (cType, n)) {sqlType : SqlType} {length : ℤ} {literal : Bytes}
    (hliteral : appendValueLiteral sqlType length value = .ok literal) :
    withoutParens literal = intText n := by
  cases value with
  | slong n | sshort n | stinyint n | sbigint n =>
    have hlow := n.le_toInt
    have hhigh := n.toInt_lt
    cases h
    cases hliteral
    exact withoutParens_printedInt (by omega)
  | ulong n | ushort n | utinyint n | ubigint n =>
    have hhigh := n.toNat_lt
    cases h
    cases hliteral
    exact withoutParens_printedNat (by omega)
  | _ => cases h

/-- The bounds of an integer target let a parameter of its type pass. -/
theorem CValue.integer_bounds {value : CValue} {cType : CType} {n : ℤ}
    (h : value.integer = some (cType, n)) (hn : n < 2 ^ 63) :
    cType.bounds.1 ≤ n ∧ n ≤ cType.bounds.2 := by
  cases value with
  | slong n | sshort n | stinyint n | sbigint n =>
    have hlow := n.le_toInt
    have hhigh := n.toInt_lt
    cases h
    simp only [CType.bounds, longMin, longMax]
    omega
  | ulong n | ushort n | utinyint n | ubigint n =>
    have hhigh := n.toNat_lt
    cases h
    simp only [CType.bounds, longMin, longMax]
    omega
  | _ => cases h

theorem CType.bounds_long (cType : CType) :
    longMin ≤ cType.bounds.1 ∧ cType.bounds.2 ≤ longMax := by
  cases cType with
  | other => exact ⟨le_rfl, le_rfl⟩
  | _ => decide

theorem IntegerType.size_pos {cType : CType} {ty : IntegerType} (h : cType.integerType = some ty) :
    0 < ty.size := by
  cases cType <;> cases h <;> decide

/-- The literal of a parameter that is no `NULL`. -/
theorem appendValueLiteral_of_param {param : BoundParam} {value : CValue} {literal : Bytes}
    (hbuffer : param.buffer = some value) (hindicator : param.indicator ≠ sqlNullData)
    (h : appendParamLiteral param = .ok literal) :
    appendValueLiteral param.sqlType param.indicator value = .ok literal := by
  rcases appendParamLiteral_cases h with ⟨hnull | hnull, -⟩ | ⟨v, hv, -, hliteral⟩
  · rw [hbuffer] at hnull
    cases hnull
  · exact absurd hnull hindicator
  · rw [hbuffer] at hv
    cases hv
    exact hliteral

/-- **An integer parameter comes back.** Read through its C type from a cell that holds the number of
its literal, an integer of any type is what it was; but an unsigned one of 64 bits from `2 ^ 63` on
is refused as out of range. -/
theorem integer_round_trip {param : BoundParam} {value : CValue} {cType : CType} {n : ℤ}
    {literal : Bytes} (hvalue : value.integer = some (cType, n))
    (hbuffer : param.buffer = some value)
    (hindicator : param.indicator ≠ sqlNullData) (h : appendParamLiteral param = .ok literal)
    {cell : Cell} (hnull : cell.isNull = false) (htext : cell.text = some (withoutParens literal))
    {target : Target} (htarget : target.cType = cType) {ty : IntegerType}
    (hty : cType.integerType = some ty) (behind : Bytes) (column : Column) (offset : Option ℕ) :
    let one := convertCell behind column cell target offset
    if n < 2 ^ 63 then
      one.ret = .success ∧
        (target.buffer = true →
          ∃ bits, one.stored = some (.integer ty.size bits) ∧ ty.read bits = n)
    else (∃ diag, one.ret = .error diag ∧ diag.sqlstate = lit "22003") ∧ one.stored = none := by
  rw [withoutParens_integer hvalue (appendValueLiteral_of_param hbuffer hindicator h)] at htext
  have hcType : cellCType column target = cType := by
    unfold cellCType
    rw [htarget, if_neg (by rintro rfl; cases hty)]
  have hinteger := isInteger_intText n
  obtain ⟨rest, hbegins, htail⟩ := hinteger.begins
  have hparse := parseInteger_of_begins hbegins htail
  have hrange := value.integer_range hvalue hty
  have hone : convertCell behind column cell target offset =
      convertInteger cType.bounds.1 cType.bounds.2 ty.size (intText n) target offset := by
    rw [convertCell_text hnull htext (.inl hinteger.booleanText), hcType, convertText_integer hty]
  dsimp only
  rw [hone]
  split
  · next hn =>
    have hlong := cType.bounds_long
    have hdelivers : DeliversInteger ty n target
        (convertInteger cType.bounds.1 cType.bounds.2 ty.size (intText n) target offset) :=
      (convertInteger_delivers_iff (IntegerType.size_pos hty) hlong.1 hlong.2 hparse).2
        (iff_of_true (value.integer_bounds hvalue hn) hrange)
    unfold DeliversInteger at hdelivers
    rwa [if_pos hrange] at hdelivers
  · next hn =>
    -- what `strtoll` brings into the range of a `long long` is not taken for the number
    unfold convertInteger
    rw [hparse, if_neg fun hlong => hn (Int.lt_of_le_of_lt hlong.2 (by decide))]
    exact ⟨⟨_, rfl, rfl⟩, rfl⟩

/-- The least `SQLUBIGINT` that is no `SQLBIGINT`. -/
def largeParam : BoundParam := ⟨true, .bigint, some (.ubigint 9223372036854775808), none⟩

theorem integer_round_trip_large :
    let one := convertCell [] plainColumn (textCell "9223372036854775808") (targetOf .ubigint) none
    (∃ diag, one.ret = .error diag ∧ diag.sqlstate = lit "22003") ∧ one.stored = none := by
  have hvalue : (CValue.ubigint 9223372036854775808).integer =
      some (.ubigint, 9223372036854775808) := by decide
  have hliteral : appendParamLiteral largeParam = .ok (lit "9223372036854775808") := by
    decide +kernel
  have htext : (textCell "9223372036854775808").text =
      some (withoutParens (lit "9223372036854775808")) := by decide
  have h := integer_round_trip hvalue rfl (by decide) hliteral rfl htext
    (show (targetOf .ubigint).cType = .ubigint from rfl) rfl [] plainColumn none
  dsimp only at h
  rwa [if_neg (by decide)] at h

/-! ## Bytes -/

/-- The bytes of a binary parameter. -/
def BoundParam.bytes (param : BoundParam) (memory : Bytes) : Bytes :=
  if 0 ≤ param.indicator then memory.take param.indicator.toNat else []

theorem quote_notMem_hexByte (c : UInt8) : ch '\'' ∉ hexByte c := by
  apply forall_byte (P := fun c => ch '\'' ∉ hexByte c)
  decide +kernel

theorem insideQuotes_binary (bytes : Bytes) :
    insideQuotes ((appendBinaryLiteral bytes).drop 1) = bytes.flatMap hexByte := by
  have hquote : ch '\'' ∉ bytes.flatMap hexByte := by
    intro h
    obtain ⟨c, -, hc⟩ := List.mem_flatMap.1 h
    exact quote_notMem_hexByte c hc
  exact insideQuotes_literal hquote rfl

variable {stmt : Stmt} {number : UInt16} {column : Column} {cell : Cell} {targets : ℕ → Target}

/-- **A binary parameter comes back.** Read from a binary cell that holds the digits of its literal,
in buffers of any sizes but none, the bytes of a parameter are what they were. -/
theorem binary_round_trip {param : BoundParam} {memory literal : Bytes}
    (hbuffer : param.buffer = some (.binary memory)) (hindicator : param.indicator ≠ sqlNullData)
    (h : appendParamLiteral param = .ok literal)
    (hread : ReadsBinary stmt number column cell targets)
    (htext : cell.text = some (insideQuotes (literal.drop 1))) (beyond : Behind) :
    ∃ n before last, readCalls beyond number stmt targets n = before ++ [last] ∧
      (∀ call ∈ before, call.2.ret = .successWithInfo truncated) ∧ last.2.ret = .success ∧
      delivered .binary (readCalls beyond number stmt targets n) = param.bytes memory := by
  have hliteral := appendValueLiteral_of_param hbuffer hindicator h
  cases hliteral
  have hholds : HoldsValue column .binary (cell.text.getD []) (param.bytes memory) := by
    unfold HoldsValue
    rw [if_pos ⟨rfl, hread.binary⟩, htext, Option.getD_some, insideQuotes_binary]
    exact ⟨_, [], spellsHex_flatMap _, Nat.zero_le 1, (List.append_nil _).symm⟩
  exact hread.exists_delivered beyond hholds

/-- Two bytes of a longer buffer, read one at a time. -/
theorem binary_round_trip_two : ∃ n before last,
    readCalls (fun _ _ => []) 1 (binaryStmt "CAFE") (fun _ => ⟨.binary, true, 1, true⟩) n =
      before ++ [last] ∧
    (∀ call ∈ before, call.2.ret = .successWithInfo truncated) ∧ last.2.ret = .success ∧
    delivered .binary
      (readCalls (fun _ _ => []) 1 (binaryStmt "CAFE") (fun _ => ⟨.binary, true, 1, true⟩) n) =
        [0xCA, 0xFE] := by
  have hliteral : appendParamLiteral
      ⟨true, .varbinary, some (.binary [0xCA, 0xFE, 0x01]), some 2⟩ = .ok (lit "X'CAFE'") := by
    decide
  exact binary_round_trip rfl (by decide) hliteral (readsBinary_binaryStmt "CAFE" 0)
    (congrArg some (by decide)) fun _ _ => []

end FrostlakeOdbc
