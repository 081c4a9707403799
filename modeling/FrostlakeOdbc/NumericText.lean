import FrostlakeOdbc.Execute
import FrostlakeOdbc.Lib.CNumber

/-!
# The texts that are numbers

`is_numeric_literal` is five loops over one index. What they accept is a number: blanks, a sign, digits
with a point, an exponent and blanks, of which only a digit in front of the exponent has to be there
(`isNumericLiteral_iff`).
-/

namespace FrostlakeOdbc

open CString

/-! ## Numbers -/

/-- Digits, with a point among them or without, and at least one digit. -/
inductive Mantissa : Bytes → Prop where
  | whole {int : Bytes} (hne : int ≠ []) (hint : ∀ c ∈ int, isDigit c = true) : Mantissa int
  | pointed {int frac : Bytes} (hne : int ++ frac ≠ []) (hint : ∀ c ∈ int, isDigit c = true)
      (hfrac : ∀ c ∈ frac, isDigit c = true) : Mantissa (int ++ ch '.' :: frac)

/-- An exponent or none. -/
inductive Exponent : Bytes → Prop where
  | none : Exponent []
  | some {e : UInt8} {sign digits : Bytes} (he : e = ch 'e' ∨ e = ch 'E') (hsign : Sign sign)
      (hne : digits ≠ []) (hdigits : ∀ c ∈ digits, isDigit c = true) :
      Exponent (e :: (sign ++ digits))

inductive UnsignedNumber : Bytes → Prop where
  | mk {mantissa exponent : Bytes} (hmantissa : Mantissa mantissa) (hexponent : Exponent exponent) :
      UnsignedNumber (mantissa ++ exponent)

/-- Spaces and tabs. -/
def ParamBlanks (s : Bytes) : Prop := ∀ c ∈ s, c = ch ' ' ∨ c = ch '\t'

/-- A number with its sign, and blanks around it. -/
inductive NumericText : Bytes → Prop where
  | mk {front sign number back : Bytes} (hfront : ParamBlanks front) (hsign : Sign sign)
      (hnumber : UnsignedNumber number) (hback : ParamBlanks back) :
      NumericText (front ++ (sign ++ number ++ back))

/-! ## What they are made of -/

theorem paramBlanks_iff {s : Bytes} : ParamBlanks s ↔ ∀ c ∈ s, isParamBlank c = true := by
  simp only [ParamBlanks, isParamBlank, Bool.or_eq_true, decide_eq_true_eq]

/-- What a number may start and end with. -/
def isNumberEdge (c : UInt8) : Bool := isDigit c || c = ch '.'

theorem numberEdge_facts {c : UInt8} (h : isNumberEdge c = true) :
    isParamBlank c = false ∧ isSign c = false ∧ c ≠ ch '(' := by
  revert h
  apply forall_byte (P := fun c => isNumberEdge c = true →
    isParamBlank c = false ∧ isSign c = false ∧ c ≠ ch '(')
  decide +kernel

theorem isNumberEdge_of_isDigit {c : UInt8} (h : isDigit c = true) : isNumberEdge c = true := by
  rw [isNumberEdge, h, Bool.true_or]

theorem Mantissa.forall_edge {s : Bytes} (h : Mantissa s) : ∀ c ∈ s, isNumberEdge c = true := by
  cases h with
  | whole _ hint => exact fun c hc => isNumberEdge_of_isDigit (hint c hc)
  | pointed _ hint hfrac =>
    simp only [List.forall_mem_append, List.forall_mem_cons]
    exact ⟨fun c hc => isNumberEdge_of_isDigit (hint c hc), by decide,
      fun c hc => isNumberEdge_of_isDigit (hfrac c hc)⟩

theorem Mantissa.ne_nil {s : Bytes} (h : Mantissa s) : s ≠ [] := by
  cases h with
  | whole hne _ => exact hne
  | pointed _ _ _ => simp

theorem Exponent.head {s : Bytes} (h : Exponent s) : ∀ c ∈ s.head?, isNumberEdge c = false := by
  cases h with
  | none => simp
  | some he _ _ _ =>
    rintro c ⟨⟩
    rcases he with rfl | rfl <;> decide

namespace UnsignedNumber

variable {s : Bytes}

theorem exists_head (h : UnsignedNumber s) : ∃ c rest, s = c :: rest ∧ isNumberEdge c = true := by
  obtain ⟨hmantissa, _⟩ := h
  obtain ⟨c, rest, rfl⟩ := List.exists_cons_of_ne_nil hmantissa.ne_nil
  exact ⟨c, _, rfl, hmantissa.forall_edge c List.mem_cons_self⟩

theorem exists_last (h : UnsignedNumber s) : ∃ front c, s = front ++ [c] ∧ isNumberEdge c = true := by
  have hlast : ∀ {a t : Bytes}, t ≠ [] → (∀ c ∈ t, isNumberEdge c = true) →
      ∃ front c, a ++ t = front ++ [c] ∧ isNumberEdge c = true := by
    intro a t hne hedge
    refine ⟨a ++ t.dropLast, t.getLast hne, ?_, hedge _ (List.getLast_mem hne)⟩
    rw [List.append_assoc, List.dropLast_append_getLast]
  obtain @⟨mantissa, _, hmantissa, hexponent⟩ := h
  cases hexponent with
  | none =>
    rw [List.append_nil]
    exact @hlast [] _ hmantissa.ne_nil hmantissa.forall_edge
  | @some e sign digits _ _ hne hdigits =>
    have hsplit := @hlast (mantissa ++ e :: sign) digits hne fun c hc =>
      isNumberEdge_of_isDigit (hdigits c hc)
    rwa [List.append_assoc, List.cons_append] at hsplit

end UnsignedNumber

/-! ## What is accepted -/

/-- What `is_numeric_literal` does behind the blanks and the sign. -/
def acceptsUnsigned (s : Bytes) : Bool :=
  let int := s.takeWhile isDigit
  let s := s.dropWhile isDigit
  let (frac, s) :=
    if s.head? = some (ch '.') then ((s.drop 1).takeWhile isDigit, (s.drop 1).dropWhile isDigit)
    else ([], s)
  if int ++ frac = [] then false else dropExponent s = some []

theorem isNumericLiteral_eq (text : Bytes) :
    isNumericLiteral text = acceptsUnsigned (dropSign (trimBlanks text)) := rfl

theorem dropSign_of_isSign {s : Bytes} (h : ∀ c ∈ s.head?, isSign c = false) : dropSign s = s := by
  cases s with
  | nil => rfl
  | cons c rest =>
    have hc := h c rfl
    rw [isSign, Bool.or_comm] at hc
    rw [dropSign, hc, if_neg Bool.false_ne_true]

theorem dropSign_append {sign s : Bytes} (hsign : Sign sign) (hs : ∀ c ∈ s.head?, isSign c = false) :
    dropSign (sign ++ s) = s := by
  rcases hsign with rfl | rfl | rfl
  · exact dropSign_of_isSign hs
  · rfl
  · rfl

/-- What is stepped over is a sign. -/
theorem exists_sign (s : Bytes) : ∃ sign, Sign sign ∧ s = sign ++ dropSign s := by
  cases s with
  | nil => exact ⟨[], .inl rfl, rfl⟩
  | cons c rest =>
    rw [dropSign]
    split_ifs with hc
    · rw [Bool.or_eq_true, decide_eq_true_eq, decide_eq_true_eq] at hc
      rcases hc with rfl | rfl
      · exact ⟨_, .inr (.inr rfl), rfl⟩
      · exact ⟨_, .inr (.inl rfl), rfl⟩
    · exact ⟨[], .inl rfl, rfl⟩

theorem isSign_head_of_isDigit {digits : Bytes} (h : ∀ c ∈ digits, isDigit c = true) :
    ∀ c ∈ digits.head?, isSign c = false := fun c hc =>
  (digit_ne (h c (List.mem_of_mem_head? hc))).2.1

theorem dropExponent_eq_some_nil_iff {s : Bytes} : dropExponent s = some [] ↔ Exponent s := by
  constructor
  · intro h
    cases s with
    | nil => exact .none
    | cons c rest =>
      unfold dropExponent at h
      dsimp only at h
      split_ifs at h with he hne
      · rw [Bool.or_eq_true, decide_eq_true_eq, decide_eq_true_eq] at he
        obtain ⟨sign, hsign, hrest⟩ := exists_sign rest
        have hdigits : ∀ d ∈ dropSign rest, isDigit d = true :=
          List.dropWhile_eq_nil_iff.1 (Option.some.inj h)
        rw [hrest]
        refine .some he hsign (fun hnil => hne ?_) hdigits
        rw [hnil]
        rfl
      · cases h
  · intro h
    cases h with
    | none => rfl
    | @some e sign digits he hsign hne hdigits =>
      obtain ⟨htake, hdrop⟩ := takeWhile_append_stop (s := []) hdigits (by simp)
      rw [List.append_nil] at htake hdrop
      have he : (e = ch 'e' || e = ch 'E') = true := by
        rwa [Bool.or_eq_true, decide_eq_true_eq, decide_eq_true_eq]
      rw [dropExponent, if_pos he, dropSign_append hsign (isSign_head_of_isDigit hdigits)]
      dsimp only
      rw [htake, hdrop, if_neg hne]

theorem acceptsUnsigned_iff {s : Bytes} : acceptsUnsigned s = true ↔ UnsignedNumber s := by
  have hedge : ∀ {c : UInt8}, isNumberEdge c = false → isDigit c = false ∧ c ≠ ch '.' := by
    intro c hc
    rwa [isNumberEdge, Bool.or_eq_false_iff, decide_eq_false_iff_not] at hc
  constructor
  · intro h
    have hint : ∀ c ∈ s.takeWhile isDigit, isDigit c = true := fun c => List.mem_takeWhile_imp
    have hsplit := List.takeWhile_append_dropWhile (p := isDigit) (l := s)
    unfold acceptsUnsigned at h
    dsimp only at h
    split at h
    · next hpoint =>
      split_ifs at h with hne
      have hexponent := dropExponent_eq_some_nil_iff.1 (of_decide_eq_true h)
      obtain ⟨behind, hbehind⟩ := List.head?_eq_some_iff.1 hpoint
      rw [hbehind, List.drop_one, List.tail_cons] at hne hexponent
      have hfrac := List.takeWhile_append_dropWhile (p := isDigit) (l := behind)
      rw [← hsplit, hbehind, ← hfrac, ← List.cons_append, ← List.append_assoc]
      exact .mk (.pointed hne hint fun c => List.mem_takeWhile_imp) hexponent
    · split_ifs at h with hne
      rw [List.append_nil] at hne
      rw [← hsplit]
      exact .mk (.whole hne hint) (dropExponent_eq_some_nil_iff.1 (of_decide_eq_true h))
  · rintro @⟨_, exponent, hmantissa, hexponent⟩
    have hdrop := dropExponent_eq_some_nil_iff.2 hexponent
    have hhead := hexponent.head
    unfold acceptsUnsigned
    cases hmantissa with
    | @whole int hne hint =>
      obtain ⟨htake, hrest⟩ := takeWhile_append_stop hint fun c hc => (hedge (hhead c hc)).1
      have hpoint : ¬exponent.head? = some (ch '.') := fun h => (hedge (hhead _ h)).2 rfl
      simp only [htake, hrest, if_neg hpoint, List.append_nil, if_neg hne, hdrop, decide_true]
    | @pointed int frac hne hint hfrac =>
      obtain ⟨htake, hrest⟩ := takeWhile_append_stop hfrac fun c hc => (hedge (hhead c hc)).1
      have hstop : ∀ c ∈ (ch '.' :: (frac ++ exponent)).head?, isDigit c = false := by
        rintro c ⟨⟩
        decide
      obtain ⟨htake', hrest'⟩ := takeWhile_append_stop hint hstop
      rw [List.append_assoc, List.cons_append]
      simp only [htake', hrest', List.head?_cons, if_true, List.drop_succ_cons, List.drop_zero, htake,
        hrest, if_neg hne, hdrop, decide_true]

/-- The blanks around a text that starts and ends with something else are trimmed. -/
theorem trimBlanks_eq {front core back : Bytes} (hfront : ∀ c ∈ front, isParamBlank c = true)
    (hhead : ∃ c rest, core = c :: rest ∧ isParamBlank c = false)
    (hlast : ∃ rest c, core = rest ++ [c] ∧ isParamBlank c = false)
    (hback : ∀ c ∈ back, isParamBlank c = true) : trimBlanks (front ++ (core ++ back)) = core := by
  have hcore : ∀ c ∈ (core ++ back).head?, isParamBlank c = false := by
    obtain ⟨c, rest, rfl, hc⟩ := hhead
    rintro d ⟨⟩
    exact hc
  have hend : ∀ c ∈ core.reverse.head?, isParamBlank c = false := by
    obtain ⟨rest, c, rfl, hc⟩ := hlast
    rw [List.reverse_append]
    rintro d ⟨⟩
    exact hc
  unfold trimBlanks
  rw [(takeWhile_append_stop hfront hcore).2, List.reverse_append,
    (takeWhile_append_stop (fun c hc => hback c (List.mem_reverse.1 hc)) hend).2, List.reverse_reverse]

/-- Blanks stand around what is left. -/
theorem exists_trimBlanks (text : Bytes) : ∃ front back, text = front ++ (trimBlanks text ++ back) ∧
    (∀ c ∈ front, isParamBlank c = true) ∧ ∀ c ∈ back, isParamBlank c = true := by
  refine ⟨text.takeWhile isParamBlank,
    ((text.dropWhile isParamBlank).reverse.takeWhile isParamBlank).reverse, ?_,
    fun c => List.mem_takeWhile_imp, fun c hc => List.mem_takeWhile_imp (List.mem_reverse.1 hc)⟩
  rw [trimBlanks, ← List.reverse_append, List.takeWhile_append_dropWhile, List.reverse_reverse,
    List.takeWhile_append_dropWhile]

/-- `is_numeric_literal` accepts the numbers. -/
theorem isNumericLiteral_iff {text : Bytes} : isNumericLiteral text = true ↔ NumericText text := by
  rw [isNumericLiteral_eq, acceptsUnsigned_iff]
  constructor
  · intro h
    obtain ⟨front, back, htext, hfront, hback⟩ := exists_trimBlanks text
    obtain ⟨sign, hsign, htrim⟩ := exists_sign (trimBlanks text)
    rw [htext, htrim]
    exact .mk (paramBlanks_iff.2 hfront) hsign h (paramBlanks_iff.2 hback)
  · rintro @⟨front, sign, number, back, hfront, hsign, hnumber, hback⟩
    obtain ⟨c, rest, hhead, hc⟩ := hnumber.exists_head
    obtain ⟨before, d, hlast, hd⟩ := hnumber.exists_last
    have htrim : trimBlanks (front ++ (sign ++ number ++ back)) = sign ++ number := by
      apply trimBlanks_eq (paramBlanks_iff.1 hfront) ?_ ?_ (paramBlanks_iff.1 hback)
      · rcases hsign with rfl | rfl | rfl
        · exact ⟨c, rest, hhead, (numberEdge_facts hc).1⟩
        · exact ⟨ch '-', number, rfl, by decide⟩
        · exact ⟨ch '+', number, rfl, by decide⟩
      · exact ⟨sign ++ before, d, by rw [hlast, List.append_assoc], (numberEdge_facts hd).1⟩
    have hsigned : ∀ c ∈ number.head?, isSign c = false := by
      rw [hhead]
      rintro d ⟨⟩
      exact (numberEdge_facts hc).2.1
    rwa [htrim, dropSign_append hsign hsigned]

end FrostlakeOdbc
