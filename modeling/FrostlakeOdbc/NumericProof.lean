import FrostlakeOdbc.LiteralProof
import FrostlakeOdbc.Lib.Block

/-!
# The gate of a number

Only a text that `is_numeric_literal` accepts is put into a statement without quotes. The function and
`append_number` read no byte behind the length they are given (`readNumericLiteral_eq`,
`readAppendNumber_eq`), and in what they let through there is one number and nothing else
(`numericLaw`).
-/

namespace FrostlakeOdbc

open CString

/-! ## The bytes that are read -/

/-- The exponent of `is_numeric_literal`, from `i` on: where it ends, or nothing for one without
digits. -/
def readExponent (text : Bytes) (stop i : ℕ) : Option (Option ℕ) := do
  if ← looksAt (fun c => c = ch 'e' || c = ch 'E') text stop i then
    let i := i + 1
    let i := if ← looksAt isSign text stop i then i + 1 else i
    let k ← passUpTo isDigit text (stop - i) i
    return if k = i then none else some k
  else return some i

/-- The digits and the point of `is_numeric_literal`, from `i` on: where they end, and how many digits
there are. -/
def readMantissa (text : Bytes) (stop i : ℕ) : Option (ℕ × ℕ) := do
  let j ← passUpTo isDigit text (stop - i) i
  if ← looksAt (fun c => c = ch '.') text stop j then
    let k ← passUpTo isDigit text (stop - (j + 1)) (j + 1)
    return (k, j - i + (k - (j + 1)))
  else return (j, j - i)

/-- `is_numeric_literal`, on the bytes up to the length. A read of any other byte is none. -/
def readNumericLiteral (text : Bytes) : Option Bool := do
  let i ← passUpTo isParamBlank text text.length 0
  let stop ← passBack isParamBlank text (text.length - i) text.length
  if i = stop then return false
  let i := if isSign (← text[i]?) then i + 1 else i
  let (j, digits) ← readMantissa text stop i
  if digits = 0 then return false
  return (← readExponent text stop j) = some stop

/-- `append_number`. -/
def readAppendNumber (text : Bytes) : Option Bytes := do
  let i ← passUpTo isParamBlank text text.length 0
  if i = text.length then return text
  if (← text[i]?) ≠ ch '-' then return text
  return lit "(" ++ text ++ lit ")"

section

variable {text : Bytes} {stop i : ℕ}

/-- A loop that stays in front of the end. -/
theorem passUpTo_window (p : UInt8 → Bool) (hstop : stop ≤ text.length) (hi : i ≤ stop) :
    ∃ k, passUpTo p text (stop - i) i = some k ∧ k = i + ((window text stop i).takeWhile p).length ∧
      window text stop k = (window text stop i).dropWhile p ∧ k ≤ stop := by
  refine ⟨_, passUpTo_eq hstop (Nat.add_sub_of_le hi), rfl, window_pass p, ?_⟩
  have hle := (List.takeWhile_prefix (l := window text stop i) p).length_le
  have hlen : (window text stop i).length = stop - i := by
    rw [window, List.length_drop, List.length_take, Nat.min_eq_left hstop]
  omega

theorem window_succ {c : UInt8} {rest : Bytes} (hstop : stop ≤ text.length)
    (h : window text stop i = c :: rest) : window text stop (i + 1) = rest ∧ i + 1 ≤ stop := by
  constructor
  · rw [window_add, h]
    rfl
  · have hne : window text stop i ≠ [] := by
      rw [h]
      exact List.cons_ne_nil c rest
    exact Nat.not_le.1 (mt (window_eq_nil_iff hstop).2 hne)

/-- The step over a sign. -/
theorem window_dropSign (hstop : stop ≤ text.length) (hi : i ≤ stop) {j : ℕ}
    (hj : j = if (window text stop i).head?.any isSign then i + 1 else i) :
    window text stop j = dropSign (window text stop i) ∧ j ≤ stop := by
  subst hj
  cases hwindow : window text stop i with
  | nil => exact ⟨hwindow, hi⟩
  | cons c rest =>
    obtain ⟨hnext, hle⟩ := window_succ hstop hwindow
    rw [List.head?_cons, Option.any_some, dropSign, Bool.or_comm]
    show window text stop (if isSign c = true then i + 1 else i) =
      (if isSign c = true then rest else c :: rest) ∧ _
    split
    · exact ⟨hnext, hle⟩
    · exact ⟨hwindow, hi⟩

theorem readExponent_eq (hstop : stop ≤ text.length) (hi : i ≤ stop) :
    ∃ r, readExponent text stop i = some r ∧
      r.map (window text stop) = dropExponent (window text stop i) ∧ ∀ k ∈ r, k ≤ stop := by
  unfold readExponent
  rw [looksAt_eq hstop, Option.bind_eq_bind, Option.bind_some]
  cases hwindow : window text stop i with
  | nil => exact ⟨some i, rfl, congrArg some hwindow, by rintro k ⟨⟩; exact hi⟩
  | cons c rest =>
    obtain ⟨hnext, hle⟩ := window_succ hstop hwindow
    rw [List.head?_cons, Option.any_some, dropExponent]
    split
    · next he =>
      dsimp only
      rw [looksAt_eq hstop, Option.bind_eq_bind, Option.bind_some]
      generalize hj :
        (if (window text stop (i + 1)).head?.any isSign = true then i + 1 + 1 else i + 1) = j
      obtain ⟨hsign, hjstop⟩ := window_dropSign hstop hle hj.symm
      obtain ⟨k, hpass, hk, hbehind, hkstop⟩ := passUpTo_window isDigit hstop hjstop
      rw [hsign, hnext] at hk hbehind
      rw [hpass, Option.bind_some]
      by_cases hdigits : (dropSign rest).takeWhile isDigit = []
      · rw [hdigits, List.length_nil, Nat.add_zero] at hk
        rw [if_pos hdigits]
        exact ⟨none, congrArg some (if_pos hk), rfl, by rintro k ⟨⟩⟩
      · have hne : k ≠ j := by
          have := List.length_pos_iff.2 hdigits
          omega
        rw [if_neg hdigits, ← hbehind]
        exact ⟨some k, congrArg some (if_neg hne), rfl, by rintro k ⟨⟩; exact hkstop⟩
    · exact ⟨some i, rfl, congrArg some hwindow, by rintro k ⟨⟩; exact hi⟩

/-- The digits of a mantissa, and what is left behind them and the point. -/
def splitMantissa (s : Bytes) : Bytes × Bytes :=
  let rest := s.dropWhile isDigit
  if rest.head? = some (ch '.') then
    (s.takeWhile isDigit ++ (rest.drop 1).takeWhile isDigit, (rest.drop 1).dropWhile isDigit)
  else (s.takeWhile isDigit, rest)

theorem acceptsUnsigned_eq (s : Bytes) :
    acceptsUnsigned s =
      if (splitMantissa s).1 = [] then false
      else decide (dropExponent (splitMantissa s).2 = some []) := by
  unfold acceptsUnsigned splitMantissa
  dsimp only
  split
  · rfl
  · rw [List.append_nil]

theorem readMantissa_eq (hstop : stop ≤ text.length) (hi : i ≤ stop) :
    ∃ k, readMantissa text stop i = some (k, (splitMantissa (window text stop i)).1.length) ∧
      window text stop k = (splitMantissa (window text stop i)).2 ∧ k ≤ stop := by
  obtain ⟨j, hpass, hj, hrest, hjstop⟩ := passUpTo_window isDigit hstop hi
  unfold readMantissa splitMantissa
  rw [hpass, Option.bind_eq_bind, Option.bind_some, looksAt_eq hstop, Option.bind_eq_bind,
    Option.bind_some, ← hrest]
  dsimp only
  by_cases hpoint : (window text stop j).head? = some (ch '.')
  · obtain ⟨rest, hwindow⟩ := List.head?_eq_some_iff.1 hpoint
    obtain ⟨hnext, hle⟩ := window_succ hstop hwindow
    obtain ⟨k, hpass', hk, hbehind, hkstop⟩ := passUpTo_window isDigit hstop hle
    rw [hnext] at hk hbehind
    rw [if_pos hpoint, hwindow, List.head?_cons, Option.any_some, if_pos (by decide), hpass',
      Option.bind_some, List.drop_one, List.tail_cons, List.length_append]
    refine ⟨k, ?_, hbehind, hkstop⟩
    have hlength : j - i + (k - (j + 1)) =
        ((window text stop i).takeWhile isDigit).length + (rest.takeWhile isDigit).length := by
      omega
    rw [hlength]
    rfl
  · have hany : (window text stop j).head?.any (fun c => decide (c = ch '.')) = false := by
      cases hhead : (window text stop j).head? with
      | none => rfl
      | some c =>
        rw [hhead] at hpoint
        exact decide_eq_false fun h => hpoint (congrArg some h)
    have hlength : j - i = ((window text stop i).takeWhile isDigit).length := by omega
    rw [if_neg hpoint, hany, if_neg Bool.false_ne_true, hlength]
    exact ⟨j, rfl, rfl, hjstop⟩

/-- The step of the two loops over the blanks. -/
theorem window_trimBlanks {text : Bytes} {i : ℕ} (hi : i = (text.takeWhile isParamBlank).length) :
    ∃ stop, passBack isParamBlank text (text.length - i) text.length = some stop ∧
      window text stop i = trimBlanks text ∧ i ≤ stop ∧ stop ≤ text.length := by
  have hsplit : text.takeWhile isParamBlank ++ text.dropWhile isParamBlank = text :=
    List.takeWhile_append_dropWhile
  have hdrop : text.drop i = text.dropWhile isParamBlank := by
    rw [hi]
    exact (congrArg _ hsplit.symm).trans List.drop_left
  have hle : i ≤ text.length := by
    rw [hi]
    exact (List.takeWhile_prefix _).length_le
  have hlength : i + (text.length - i) = text.length := Nat.add_sub_of_le hle
  have hback := @passBack_eq isParamBlank text i (text.length - i) hlength.le
  have htake : (text.drop i).take (text.length - i) = text.dropWhile isParamBlank := by
    rw [hdrop, ← List.length_drop, hdrop, List.take_length]
  rw [hlength, htake] at hback
  obtain ⟨t, ht⟩ := List.rdropWhile_prefix isParamBlank (l := text.dropWhile isParamBlank)
  refine ⟨_, hback, ?_, Nat.le_add_right .., ?_⟩
  · change _ = (text.dropWhile isParamBlank).rdropWhile isParamBlank
    rw [window, List.drop_take, Nat.add_sub_cancel_left, hdrop]
    nth_rewrite 2 [← ht]
    exact List.take_left
  · have hlen := congrArg List.length ht
    have hall := congrArg List.length hdrop
    rw [List.length_append] at hlen
    rw [List.length_drop] at hall
    omega

/-- `is_numeric_literal` reads the bytes up to the length, and no other. -/
theorem readNumericLiteral_eq (text : Bytes) :
    readNumericLiteral text = some (isNumericLiteral text) := by
  have hall : window text text.length 0 = text := by
    rw [window, List.take_length, List.drop_zero]
  obtain ⟨i, hpass, hi, -, -⟩ := @passUpTo_window text text.length 0 isParamBlank le_rfl (Nat.zero_le _)
  rw [hall, Nat.zero_add] at hi
  rw [Nat.sub_zero] at hpass
  obtain ⟨stop, hback, hwindow, histop, hstop⟩ := window_trimBlanks hi
  unfold readNumericLiteral
  rw [hpass, Option.bind_eq_bind, Option.bind_some, hback, Option.bind_eq_bind, Option.bind_some,
    isNumericLiteral_eq, acceptsUnsigned_eq, ← hwindow]
  split
  · next heq =>
    rw [(window_eq_nil_iff hstop).2 heq.ge]
    rfl
  · next hne =>
    obtain ⟨c, hc, hcons⟩ := window_cons hstop (Nat.lt_of_le_of_ne histop hne)
    have hsign : (if isSign c = true then i + 1 else i) =
        if (window text stop i).head?.any isSign then i + 1 else i := by
      rw [hcons]
      rfl
    obtain ⟨hunsigned, hlestop⟩ := window_dropSign hstop histop hsign
    obtain ⟨k, hmantissa, hbehind, hkstop⟩ := readMantissa_eq hstop hlestop
    obtain ⟨r, hexponent, hmap, hrstop⟩ := readExponent_eq hstop hkstop
    rw [hbehind, hunsigned] at hmap
    rw [hunsigned] at hmantissa
    rw [hc, Option.bind_eq_bind, Option.bind_some]
    dsimp only
    rw [hmantissa, Option.bind_eq_bind, Option.bind_some, hexponent]
    dsimp only
    rw [Option.bind_some, ← hmap]
    have hend : r = some stop ↔ r.map (window text stop) = some [] := by
      rw [Option.map_eq_some_iff]
      constructor
      · rintro rfl
        exact ⟨stop, rfl, (window_eq_nil_iff hstop).2 le_rfl⟩
      · rintro ⟨k, rfl, hnil⟩
        exact congrArg some (Nat.le_antisymm (hrstop k rfl) ((window_eq_nil_iff hstop).1 hnil))
    simp only [List.length_eq_zero_iff, hend]
    split <;> rfl

/-- So does `append_number`. -/
theorem readAppendNumber_eq (text : Bytes) : readAppendNumber text = some (appendNumber text) := by
  have hall : window text text.length 0 = text := by
    rw [window, List.take_length, List.drop_zero]
  obtain ⟨i, hpass, hi, hrest, hle⟩ :=
    @passUpTo_window text text.length 0 isParamBlank le_rfl (Nat.zero_le _)
  rw [hall] at hrest
  rw [Nat.sub_zero] at hpass
  unfold readAppendNumber appendNumber
  rw [hpass, Option.bind_eq_bind, Option.bind_some, ← hrest]
  split
  · next heq =>
    rw [(window_eq_nil_iff le_rfl).2 heq.ge]
    rfl
  · next hne =>
    obtain ⟨c, hc, hcons⟩ := window_cons le_rfl (Nat.lt_of_le_of_ne hle hne)
    rw [hc, hcons, Option.bind_eq_bind, Option.bind_some, List.head?_cons, ite_not]
    simp only [Option.some_inj]
    split <;> rfl

end

/-! ## What is let through -/

def isLetter (c : UInt8) : Bool := isUpper (toUpper c)

/-- A number with its sign. -/
inductive SignedNumber : Bytes → Prop where
  | mk {sign number : Bytes} (hsign : Sign sign) (hnumber : UnsignedNumber number) :
      SignedNumber (sign ++ number)

/-- A text that a statement can only take for one number: no quote, no letter but one that marks an
exponent, no comment, and each number in it is a part of one of them. -/
structure LoneNumber (text : Bytes) : Prop where
  quotes : ∀ c ∈ text, c ≠ ch '\'' ∧ c ≠ ch '"'
  letters : text.filter isLetter = [] ∨
    ∃ e, (e = ch 'e' ∨ e = ch 'E') ∧ text.filter isLetter = [e]
  comments : ∀ opener ∈ [lit "--", lit "//", lit "/*"], ¬opener <:+: text
  numbers : ∃ front number back, text = front ++ (number ++ back) ∧ SignedNumber number ∧
    ∀ x other y, text = x ++ (other ++ y) → SignedNumber other →
      front.length ≤ x.length ∧ back.length ≤ y.length

/-- What holds of the gate for a text of any bytes and any length. -/
structure NumericLaw (text : Bytes) : Prop where
  reads : readNumericLiteral text = some (isNumericLiteral text)
  accepts : isNumericLiteral text = true ↔ NumericText text
  emits : isNumericLiteral text = true →
    readAppendNumber text = some
      (if text.find? (fun c => c ≠ ch ' ' ∧ c ≠ ch '\t') = some (ch '-') then lit "(" ++ text ++ lit ")"
      else text)
  holds : isNumericLiteral text = true → LoneNumber text

section

variable {text : Bytes}

theorem not_isLetter {c : UInt8} (h : (isNumberEdge c || isSign c || isParamBlank c) = true) :
    isLetter c = false := by
  revert h
  apply forall_byte (P := fun c => (isNumberEdge c || isSign c || isParamBlank c) = true →
    isLetter c = false)
  decide +kernel

theorem filter_isLetter {p : UInt8 → Bool} {s : Bytes} (h : ∀ c ∈ s, p c = true)
    (hp : ∀ c, p c = true → (isNumberEdge c || isSign c || isParamBlank c) = true) :
    s.filter isLetter = [] := by
  apply List.filter_eq_nil_iff.2
  intro c hc
  rw [not_isLetter (hp c (h c hc))]
  exact Bool.false_ne_true

theorem filter_isLetter_sign {s : Bytes} (h : Sign s) : s.filter isLetter = [] := by
  rcases h with rfl | rfl | rfl <;> rfl

theorem UnsignedNumber.filter_isLetter {s : Bytes} (h : UnsignedNumber s) :
    s.filter isLetter = [] ∨ ∃ e, (e = ch 'e' ∨ e = ch 'E') ∧ s.filter isLetter = [e] := by
  obtain ⟨hmantissa, hexponent⟩ := h
  rw [List.filter_append, FrostlakeOdbc.filter_isLetter hmantissa.forall_edge fun c hc => by rw [hc]; rfl,
    List.nil_append]
  cases hexponent with
  | none => exact .inl rfl
  | @some e sign digits he hsign _ hdigits =>
    have hletter : isLetter e = true := by
      rcases he with rfl | rfl <;> decide
    rw [List.filter_cons_of_pos hletter, List.filter_append, filter_isLetter_sign hsign,
      FrostlakeOdbc.filter_isLetter hdigits fun c hc => by rw [isNumberEdge_of_isDigit hc]; rfl]
    exact .inr ⟨e, he, rfl⟩

theorem NumericText.filter_isLetter (h : NumericText text) :
    text.filter isLetter = [] ∨ ∃ e, (e = ch 'e' ∨ e = ch 'E') ∧ text.filter isLetter = [e] := by
  obtain ⟨hfront, hsign, hnumber, hback⟩ := h
  have hblanks : ∀ {s : Bytes}, ParamBlanks s → s.filter isLetter = [] := fun hs =>
    FrostlakeOdbc.filter_isLetter (paramBlanks_iff.1 hs) fun c hc => by rw [hc, Bool.or_true]
  rw [List.filter_append, List.filter_append, List.filter_append, hblanks hfront, hblanks hback,
    filter_isLetter_sign hsign, List.append_nil]
  exact hnumber.filter_isLetter

/-- A comment would show in a bland text. -/
theorem not_infix_of_bland (h : bland text = true) {opener : Bytes}
    (hopener : opener ∈ [lit "--", lit "//", lit "/*"]) : ¬opener <:+: text := by
  rintro ⟨x, y, rfl⟩
  rw [List.append_assoc] at h
  have hbland := bland_of_suffix (List.suffix_append x (opener ++ y)) h
  simp only [List.mem_cons, List.not_mem_nil, or_false] at hopener
  rcases hopener with rfl | rfl | rfl <;> cases hbland

theorem SignedNumber.exists_head {s : Bytes} (h : SignedNumber s) :
    ∃ c rest, s = c :: rest ∧ isParamBlank c = false := by
  obtain @⟨sign, number, hsign, hnumber⟩ := h
  obtain ⟨c, rest, rfl, hc⟩ := hnumber.exists_head
  rcases hsign with rfl | rfl | rfl
  · exact ⟨c, rest, rfl, (numberEdge_facts hc).1⟩
  · exact ⟨ch '-', c :: rest, rfl, by decide⟩
  · exact ⟨ch '+', c :: rest, rfl, by decide⟩

theorem SignedNumber.exists_last {s : Bytes} (h : SignedNumber s) :
    ∃ rest c, s = rest ++ [c] ∧ isParamBlank c = false := by
  obtain @⟨sign, number, hsign, hnumber⟩ := h
  obtain ⟨front, c, rfl, hc⟩ := hnumber.exists_last
  exact ⟨sign ++ front, c, (List.append_assoc ..).symm, (numberEdge_facts hc).1⟩

/-- Blanks end in front of what is no blank. -/
theorem length_le_of_blanks {front rest x y : Bytes} {c : UInt8} (hfront : ParamBlanks front)
    (hc : isParamBlank c = false) (h : front ++ rest = x ++ c :: y) : front.length ≤ x.length := by
  rcases List.append_eq_append_iff.1 h with ⟨z, rfl, -⟩ | ⟨z, rfl, hz⟩
  · rw [List.length_append]
    exact Nat.le_add_right ..
  · cases z with
    | nil => rw [List.append_nil]
    | cons d z =>
      obtain ⟨rfl, -⟩ := List.cons.inj hz
      have hblank := paramBlanks_iff.1 hfront c (by simp)
      rw [hc] at hblank
      cases hblank

theorem NumericText.exists_number (h : NumericText text) :
    ∃ front number back, text = front ++ (number ++ back) ∧ SignedNumber number ∧
      ∀ x other y, text = x ++ (other ++ y) → SignedNumber other →
        front.length ≤ x.length ∧ back.length ≤ y.length := by
  obtain @⟨front, sign, number, back, hfront, hsign, hnumber, hback⟩ := h
  refine ⟨front, sign ++ number, back, rfl, .mk hsign hnumber, fun x other y hsplit hother => ⟨?_, ?_⟩⟩
  · obtain ⟨c, rest, rfl, hc⟩ := hother.exists_head
    exact length_le_of_blanks hfront hc hsplit
  · obtain ⟨rest, c, rfl, hc⟩ := hother.exists_last
    have hreverse := congrArg List.reverse hsplit
    simp only [List.reverse_append, List.reverse_cons, List.nil_append, List.append_assoc,
      List.cons_append] at hreverse
    have hblanks : ParamBlanks back.reverse := fun d hd => hback d (List.mem_reverse.1 hd)
    have hle := length_le_of_blanks hblanks hc hreverse
    rwa [List.length_reverse, List.length_reverse] at hle

theorem loneNumber_of_isNumericLiteral (h : isNumericLiteral text = true) : LoneNumber text := by
  have hbland := (bland_of_isNumericLiteral h).1
  have hnumber := isNumericLiteral_iff.1 h
  refine ⟨fun c hc => ?_, hnumber.filter_isLetter, fun opener => not_infix_of_bland hbland,
    hnumber.exists_number⟩
  have hspecial := notMem_special_of_bland hbland hc
  constructor <;> rintro rfl <;> exact hspecial (by decide)

end

/-- The first character that is no blank. -/
theorem head?_dropWhile_isParamBlank (s : Bytes) :
    (s.dropWhile isParamBlank).head? = s.find? fun c => c ≠ ch ' ' ∧ c ≠ ch '\t' := by
  rw [← List.find?_not_eq_head?_dropWhile]
  congr 1
  funext c
  rw [isParamBlank, Bool.not_or, Bool.decide_and, decide_not, decide_not]

/-- What is put into a statement without quotes is one number. -/
theorem numericLaw (text : Bytes) : NumericLaw text where
  reads := readNumericLiteral_eq text
  accepts := isNumericLiteral_iff
  emits := by
    intro _
    rw [readAppendNumber_eq, appendNumber, head?_dropWhile_isParamBlank]
  holds := loneNumber_of_isNumericLiteral

end FrostlakeOdbc
