import FrostlakeOdbc.ExecuteProof

/-!
# What is spliced as a number

`is_numeric_literal` checks the text of a character parameter before it is spliced as a number. The
texts of the native types are not checked. Every one of them is a number but an infinity or what is no
number at all (`splicesNumber_iff`).
-/

namespace FrostlakeOdbc

open CString

/-! ## What `printf` writes -/

/-- An exponent of `%g`. -/
def GExponent (s : Bytes) : Prop :=
  ∃ sign digits, (sign = ch '+' ∨ sign = ch '-') ∧ digits ≠ [] ∧ (∀ c ∈ digits, isDigit c = true) ∧
    s = ch 'e' :: sign :: digits

/-- A number in digits, as `%d` and, of a finite value, `%g` write it. -/
def GFinite (s : Bytes) : Prop :=
  ∃ sign int frac exp, (sign = [] ∨ sign = lit "-") ∧ int ≠ [] ∧ (∀ c ∈ int, isDigit c = true) ∧
    (frac = [] ∨ ∃ digits, (∀ c ∈ digits, isDigit c = true) ∧ frac = ch '.' :: digits) ∧
    (exp = [] ∨ GExponent exp) ∧ s = sign ++ (int ++ (frac ++ exp))

/-- What `%g` writes of an infinity and of what is not a number. -/
def GSpecial (s : Bytes) : Prop :=
  s = lit "inf" ∨ s = lit "-inf" ∨ s = lit "nan" ∨ s = lit "-nan"

/-- What `%.9g` and `%.17g` write. -/
def GText (s : Bytes) : Prop := GSpecial s ∨ GFinite s ∧ s.length ≤ 24

/-! ## What is spliced -/

/-- A literal without the parentheses around it. -/
def withoutParens (literal : Bytes) : Bytes :=
  if literal.head? = some (ch '(') then (literal.drop 1).dropLast else literal

/-- A value of a numeric C type, or characters that are bound as a numeric SQL type. -/
def BoundParam.IsNumber (param : BoundParam) : Prop :=
  match param.buffer with
  | some (.slong _) | some (.ulong _) | some (.sshort _) | some (.ushort _) | some (.stinyint _)
  | some (.utinyint _) | some (.sbigint _) | some (.ubigint _) => True
  | some (.float printed) | some (.double printed) => GText printed
  | some (.char _) => param.sqlType.isNumeric = true
  | _ => False

/-- What a parameter is spliced as is a number. -/
def SplicesNumber (param : BoundParam) : Prop :=
  ∀ literal, appendParamLiteral param = .ok literal → isNumericLiteral (withoutParens literal) = true

/-- A floating-point parameter with no finite value, and an indicator that is a length. -/
def SplicesSpecial (param : BoundParam) : Prop :=
  (param.indicator = sqlNts ∨ 0 ≤ param.indicator) ∧ ∃ printed, GSpecial printed ∧
    (param.buffer = some (.float printed) ∨ param.buffer = some (.double printed))

/-! ## Digits are numbers -/

theorem isNumericLiteral_of_g {s : Bytes} (h : GFinite s) : isNumericLiteral s = true := by
  obtain ⟨sign, int, frac, exp, hsign, hne, hint, hfrac, hexp, rfl⟩ := h
  have hsign : Sign sign := hsign.imp id .inl
  have hmantissa : Mantissa (int ++ frac) := by
    rcases hfrac with rfl | ⟨digits, hdigits, rfl⟩
    · rw [List.append_nil]
      exact .whole hne hint
    · exact .pointed (by simp [hne]) hint hdigits
  have hexponent : Exponent exp := by
    rcases hexp with rfl | ⟨c, digits, hc, hne, hdigits, rfl⟩
    · exact .none
    · have hsign : Sign [c] := .inr (hc.symm.imp (congrArg (fun c => [c])) (congrArg fun c => [c]))
      exact .some (.inl rfl) hsign hne hdigits
  have hnumber := @NumericText.mk [] sign _ [] nofun hsign (.mk hmantissa hexponent) nofun
  rw [List.nil_append, List.append_nil, List.append_assoc] at hnumber
  exact isNumericLiteral_iff.2 hnumber

theorem gFinite_natText (n : ℕ) : GFinite (natText n) :=
  ⟨[], natText n, [], [], .inl rfl, natText_ne_nil n, fun _ => isDigit_of_mem_natText, .inl rfl, .inl rfl,
    by simp⟩

theorem gFinite_intText (n : ℤ) : GFinite (intText n) := by
  unfold intText
  split_ifs
  · exact ⟨lit "-", natText n.natAbs, [], [], .inr rfl, natText_ne_nil _,
      fun _ => isDigit_of_mem_natText, .inl rfl, .inl rfl, by simp; rfl⟩
  · exact gFinite_natText _

/-! ## Parentheses -/

/-- A number starts with no parenthesis. -/
theorem head_of_isNumericLiteral {text : Bytes} (h : isNumericLiteral text = true) :
    text.head? ≠ some (ch '(') := by
  obtain @⟨front, sign, number, back, hfront, hsign, hnumber, hback⟩ := isNumericLiteral_iff.1 h
  obtain ⟨c, rest, rfl, hc⟩ := hnumber.exists_head
  cases front with
  | nil =>
    rcases hsign with rfl | rfl | rfl
    · exact fun hparen => (numberEdge_facts hc).2.2 (Option.some.inj hparen)
    · exact fun hparen => absurd (Option.some.inj hparen) (by decide)
    · exact fun hparen => absurd (Option.some.inj hparen) (by decide)
  | cons d front =>
    intro hparen
    have hd := hfront d List.mem_cons_self
    rw [Option.some.inj hparen] at hd
    revert hd
    decide

theorem withoutParens_of_number {text : Bytes} (h : isNumericLiteral text = true) :
    withoutParens text = text := if_neg (head_of_isNumericLiteral h)

theorem withoutParens_appendNumber {text : Bytes} (h : text.head? ≠ some (ch '(')) :
    withoutParens (appendNumber text) = text := by
  unfold appendNumber
  split_ifs
  · show ((text ++ lit ")").dropLast) = text
    exact List.dropLast_concat
  · exact if_neg h

/-! ## Every type -/

theorem printedNumber_of_length {text : Bytes} (h : text.length < paramTextSize) :
    printedNumber text = text := snprintf_of_lt h

theorem isNumericLiteral_printedInt {n : ℤ} (h : n.natAbs < 10 ^ 20) :
    isNumericLiteral (withoutParens (appendNumber (printedNumber (intText n)))) = true := by
  have hnumber := isNumericLiteral_of_g (gFinite_intText n)
  have hlength := (length_intText_le (by decide) h).trans_lt (by decide : 20 + 1 < paramTextSize)
  rw [printedNumber_of_length hlength, withoutParens_appendNumber (head_of_isNumericLiteral hnumber)]
  exact hnumber

theorem isNumericLiteral_printedNat {n : ℕ} (h : n < 10 ^ 20) :
    isNumericLiteral (withoutParens (printedNumber (natText n))) = true := by
  have hnumber := isNumericLiteral_of_g (gFinite_natText n)
  have hlength := (length_natText_le (by decide) h).trans_lt (by decide : 20 < paramTextSize)
  rw [printedNumber_of_length hlength, withoutParens_of_number hnumber]
  exact hnumber

theorem isNumericLiteral_special {s : Bytes} (h : GSpecial s) : isNumericLiteral s = false := by
  rcases h with rfl | rfl | rfl | rfl <;> decide

theorem GText.printed {printed : Bytes} (h : GText printed) :
    printed.length < paramTextSize ∧ printed.head? ≠ some (ch '(') := by
  rcases h with h | ⟨h, hlength⟩
  · rcases h with rfl | rfl | rfl | rfl <;> decide
  · exact ⟨hlength.trans_lt (by decide), head_of_isNumericLiteral (isNumericLiteral_of_g h)⟩

/-- A floating-point value is a number just where it is finite. -/
theorem isNumericLiteral_printedG {printed : Bytes} (h : GText printed) :
    isNumericLiteral (withoutParens (appendNumber (printedNumber printed))) = true ↔
      ¬GSpecial printed := by
  rw [printedNumber_of_length h.printed.1, withoutParens_appendNumber h.printed.2]
  constructor
  · intro hnumber hspecial
    rw [isNumericLiteral_special hspecial] at hnumber
    cases hnumber
  · exact fun hspecial => isNumericLiteral_of_g (h.resolve_left hspecial).1

theorem number_of_appendCharLiteral {sqlType : SqlType} {text literal : Bytes}
    (hnumeric : sqlType.isNumeric = true) (h : appendCharLiteral sqlType text = .ok literal) :
    isNumericLiteral text = true ∧ literal = appendNumber text := by
  unfold appendCharLiteral at h
  rw [if_pos hnumeric] at h
  split_ifs at h with htext
  exact ⟨htext, (Except.ok.inj h).symm⟩

theorem indicator_of_literal {param : BoundParam} {value : CValue} {literal : Bytes}
    (hbuffer : param.buffer = some value) (hnull : param.indicator ≠ sqlNullData)
    (h : appendParamLiteral param = .ok literal) :
    param.indicator = sqlNts ∨ 0 ≤ param.indicator := by
  by_contra hnot
  rw [not_or, not_le] at hnot
  unfold appendParamLiteral at h
  rw [bound_of_literal h, hbuffer] at h
  change (if param.indicator = sqlNullData then _ else
    if param.indicator < 0 ∧ param.indicator ≠ sqlNts then _ else _) = _ at h
  rw [if_neg hnull, if_pos ⟨hnot.2, hnot.1⟩] at h
  split_ifs at h

/-- What is spliced as a number is one, unless it is an infinity or what is no number. -/
theorem splicesNumber_iff {param : BoundParam} (hbound : param.bound = true)
    (hnumber : param.IsNumber) (hnull : param.indicator ≠ sqlNullData) :
    SplicesNumber param ↔ ¬SplicesSpecial param := by
  constructor
  · rintro hsplices ⟨hlength, printed, hspecial, hbuffer⟩
    have hg : isNumericLiteral (withoutParens (appendNumber (printedNumber printed))) = true := by
      refine hsplices _ ?_
      rcases hbuffer with hbuffer | hbuffer <;>
        rw [appendParamLiteral_of_length hbound hbuffer hlength] <;> rfl
    exact (isNumericLiteral_printedG (.inl hspecial)).1 hg hspecial
  · intro hnot literal h
    obtain ⟨hnone | hnone, -⟩ | ⟨value, hbuffer, -, hvalue⟩ := appendParamLiteral_cases h
    · unfold BoundParam.IsNumber at hnumber
      rw [hnone] at hnumber
      cases hnumber
    · exact absurd hnone hnull
    · have hlength := indicator_of_literal hbuffer hnull h
      unfold BoundParam.IsNumber at hnumber
      rw [hbuffer] at hnumber
      cases value with
      | slong n | sshort n | stinyint n | sbigint n =>
        cases hvalue
        have hle := n.le_toInt
        have hlt := n.toInt_lt
        exact isNumericLiteral_printedInt (by omega)
      | ulong n | ushort n | utinyint n | ubigint n =>
        cases hvalue
        exact isNumericLiteral_printedNat (lt_trans n.toNat_lt (by decide))
      | float printed =>
        cases hvalue
        exact (isNumericLiteral_printedG hnumber).2 fun hspecial =>
          hnot ⟨hlength, printed, hspecial, .inl hbuffer⟩
      | double printed =>
        cases hvalue
        exact (isNumericLiteral_printedG hnumber).2 fun hspecial =>
          hnot ⟨hlength, printed, hspecial, .inr hbuffer⟩
      | char memory =>
        obtain ⟨htext, rfl⟩ := number_of_appendCharLiteral hnumber hvalue
        rw [withoutParens_appendNumber (head_of_isNumericLiteral htext)]
        exact htext
      | _ => cases hnumber

/-- The double 1.5e300. -/
theorem splicesNumber_iff_double :
    SplicesNumber ⟨true, .double, some (.double (lit "1.5e+300")), none⟩ ↔
      ¬SplicesSpecial ⟨true, .double, some (.double (lit "1.5e+300")), none⟩ := by
  have hexp : GExponent (lit "e+300") :=
    ⟨ch '+', lit "300", .inl rfl, by decide, forall_mem_of_all (by decide), rfl⟩
  have hfinite : GFinite (lit "1.5e+300") :=
    ⟨[], lit "1", lit ".5", lit "e+300", .inl rfl, by decide, forall_mem_of_all (by decide),
      .inr ⟨lit "5", forall_mem_of_all (by decide), rfl⟩, .inr hexp, rfl⟩
  exact splicesNumber_iff rfl (.inr ⟨hfinite, by decide⟩) (by decide)

/-- An infinite double is spliced as the name `inf`. -/
theorem not_splicesNumber_inf :
    appendParamLiteral ⟨true, .double, some (.double (lit "inf")), none⟩ = .ok (lit "inf") ∧
      ¬SplicesNumber ⟨true, .double, some (.double (lit "inf")), none⟩ := by
  have hliteral : appendParamLiteral ⟨true, .double, some (.double (lit "inf")), none⟩ =
      .ok (lit "inf") := rfl
  refine ⟨hliteral, fun h => ?_⟩
  have hnumber := h _ hliteral
  revert hnumber
  decide

end FrostlakeOdbc
