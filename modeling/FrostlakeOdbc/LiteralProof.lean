import FrostlakeOdbc.NumericText
import FrostlakeOdbc.ScannerProof

/-!
# Literals stand for themselves

What a parameter is rendered as ends where it ends, whatever the statement goes on with, as long as
that is no quote, no character of a name and no marker; and under the same condition nothing in front
of it joins it (`Stands`). A string literal is one segment (`width_appendStringLiteral`). A text that
is no string is `bland`: none of its characters opens more than a name.
-/

namespace FrostlakeOdbc

open CString Scan

/-- A character that a literal may stand beside: no quote, no character of a name, no marker. -/
def apart (c : UInt8) : Bool := c ≠ ch '\'' && !isNameChar c && c ≠ ch '?'

/-- A text that is cut into its own segments between characters that are apart from it. -/
structure Stands (literal : Bytes) : Prop where
  ne_nil : literal ≠ []
  head : ∀ d ∈ literal.head?, ∀ c, apart c = true → joins c d = false
  scans : ∀ t : Bytes, (∀ d ∈ t.head?, apart d = true) →
    Scans flSqlSkip (literal ++ t) (segments flSqlSkip literal) t

theorem apart_iff {c : UInt8} :
    apart c = true ↔ c ≠ ch '\'' ∧ isNameChar c = false ∧ c ≠ ch '?' := by
  simp only [apart, Bool.and_eq_true, decide_eq_true_eq, Bool.not_eq_true', and_assoc]

/-- The segments of a text that is scanned the same way whatever follows it. -/
theorem segments_of_scans {literal : Bytes} {l : List Bytes}
    (h : ∀ t : Bytes, (∀ d ∈ t.head?, apart d = true) → Scans flSqlSkip (literal ++ t) l t) :
    segments flSqlSkip literal = l := by
  have hnil := h [] (by simp)
  rw [List.append_nil] at hnil
  exact hnil.segments_eq

theorem joins_of_apart {c d : UInt8} (hc : apart c = true) (hdouble : d ≠ ch '"')
    (hminus : d ≠ ch '-') (hslash : d ≠ ch '/') (hstar : d ≠ ch '*') : joins c d = false := by
  obtain ⟨hquote, hname, -⟩ := apart_iff.1 hc
  unfold joins
  rw [hname, decide_eq_false hquote, decide_eq_false hdouble, decide_eq_false hminus,
    decide_eq_false hslash, decide_eq_false hstar]
  simp

/-! ## Bland texts -/

/-- The characters that open a quoted construct, a comment or a body, close a comment, end a
statement or mark a parameter. -/
def special : Bytes := lit "'\"/*$;?"

/-- A text without special characters, in which each minus stands in front of something else. -/
def bland : Bytes → Bool
  | [] => true
  | c :: rest =>
      (if c = ch '-' then rest.head?.any (· ≠ ch '-') else c ∉ special) && bland rest

theorem bland_cons {c : UInt8} {rest : Bytes} (hminus : c ≠ ch '-') (hc : c ∉ special)
    (h : bland rest = true) : bland (c :: rest) = true := by
  rw [bland, if_neg hminus, h, decide_eq_true hc]
  rfl

theorem bland_minus {c : UInt8} {rest : Bytes} (hc : c ≠ ch '-') (h : bland (c :: rest) = true) :
    bland (ch '-' :: c :: rest) = true := by
  rw [bland, if_pos rfl, h, List.head?_cons, Option.any_some, decide_eq_true hc]
  rfl

theorem bland_tail {c : UInt8} {rest : Bytes} (h : bland (c :: rest) = true) :
    bland rest = true := by
  rw [bland, Bool.and_eq_true] at h
  exact h.2

theorem bland_of_suffix {a b : Bytes} (hab : a <:+ b) (h : bland b = true) : bland a = true := by
  induction b with
  | nil =>
    rw [List.suffix_nil.1 hab]
    rfl
  | cons c rest ih =>
    rcases List.suffix_cons_iff.1 hab with rfl | hab
    · exact h
    · exact ih hab (bland_tail h)

theorem bland_append {a b : Bytes} (ha : bland a = true) (hb : bland b = true) :
    bland (a ++ b) = true := by
  induction a with
  | nil => exact hb
  | cons c rest ih =>
    rw [bland, Bool.and_eq_true] at ha
    rw [List.cons_append, bland, ih ha.2, Bool.and_true]
    cases rest with
    | nil =>
      by_cases hminus : c = ch '-'
      · rw [if_pos hminus] at ha
        cases ha.1
      · rw [if_neg hminus] at ha
        rw [if_neg hminus]
        exact ha.1
    | cons d rest => exact ha.1

theorem bland_of_forall {a : Bytes} (h : ∀ c ∈ a, c ≠ ch '-' ∧ c ∉ special) : bland a = true := by
  induction a with
  | nil => rfl
  | cons c rest ih =>
    obtain ⟨hminus, hc⟩ := h c (List.mem_cons_self ..)
    exact bland_cons hminus hc (ih fun d hd => h d (List.mem_cons_of_mem c hd))

theorem notMem_special_of_bland {a : Bytes} (h : bland a = true) {c : UInt8} (hc : c ∈ a) :
    c ∉ special := by
  induction a with
  | nil => cases hc
  | cons d rest ih =>
    rcases List.mem_cons.1 hc with rfl | hc
    · rw [bland, Bool.and_eq_true] at h
      by_cases hminus : c = ch '-'
      · rw [hminus]
        decide
      · rw [if_neg hminus] at h
        exact of_decide_eq_true h.1
    · exact ih (bland_tail h) hc

/-- A special character of no kind, that starts no name, is plain. -/
theorem isPlain_of_notMem_special {c : UInt8} (hname : isNameStart c = false) (hminus : c ≠ ch '-')
    (hc : c ∉ special) : isPlain c = true := by
  have hne : ∀ d ∈ special, c ≠ d := fun d hd h => hc (h ▸ hd)
  unfold isPlain
  rw [hname, decide_eq_false hminus, decide_eq_false (hne (ch '\'') (by decide)),
    decide_eq_false (hne (ch '"') (by decide)), decide_eq_false (hne (ch '/') (by decide)),
    decide_eq_false (hne (ch '$') (by decide))]
  rfl

/-- A segment that is one character or a name. -/
def isWord (s : Bytes) : Prop := s.length = 1 ∨ ∃ c ∈ s.head?, isNameStart c = true

/-- A bland text is cut into characters and names, the same ones whatever follows that is no
character of a name. -/
theorem scans_bland : ∀ (n : ℕ) {a : Bytes}, a.length ≤ n → bland a = true →
    ∃ l, (∀ s ∈ l, isWord s) ∧
      ∀ t : Bytes, (∀ d ∈ t.head?, isNameChar d = false) → Scans flSqlSkip (a ++ t) l t
  | _, [], _, _ => ⟨[], fun _ h => absurd h List.not_mem_nil, fun t _ => .done t⟩
  | n + 1, c :: rest, hn, h => by
      rw [List.length_cons, Nat.add_le_add_iff_right] at hn
      by_cases hname : isNameStart c = true
      · -- the name takes what it can of `rest`
        have hlen : (rest.dropWhile isNameChar).length ≤ n := le_trans (List.length_dropWhile_le ..) hn
        have hrest : bland (rest.dropWhile isNameChar) = true :=
          bland_of_suffix (List.dropWhile_suffix _) (bland_tail h)
        obtain ⟨l, hl, hscan⟩ := scans_bland n hlen hrest
        refine ⟨(c :: rest.takeWhile isNameChar) :: l, ?_, fun t ht => ?_⟩
        · intro s hs
          rcases List.mem_cons.1 hs with rfl | hs
          · exact Or.inr ⟨c, rfl, hname⟩
          · exact hl s hs
        have hsplit : c :: rest ++ t =
            c :: rest.takeWhile isNameChar ++ (rest.dropWhile isNameChar ++ t) := by
          rw [List.cons_append, List.cons_append, ← List.append_assoc,
            List.takeWhile_append_dropWhile]
        rw [hsplit]
        refine .cons (by simp) ?_ (hscan t ht)
        refine width_name hname (fun d hd => List.mem_takeWhile_imp hd) fun d hd => ?_
        cases hdrop : rest.dropWhile isNameChar with
        | nil =>
          rw [hdrop] at hd
          exact ht d hd
        | cons e r =>
          rw [hdrop] at hd
          have hne := List.head?_dropWhile_not isNameChar rest
          rw [hdrop] at hne
          cases hd
          simpa using hne
      · rw [Bool.not_eq_true] at hname
        obtain ⟨l, hl, hscan⟩ := scans_bland n hn (bland_tail h)
        refine ⟨[c] :: l, ?_, fun t ht => ?_⟩
        · intro s hs
          rcases List.mem_cons.1 hs with rfl | hs
          · exact Or.inl rfl
          · exact hl s hs
        refine .cons (List.cons_ne_nil c []) (width_of_none ?_) (hscan t ht)
        by_cases hminus : c = ch '-'
        · subst hminus
          rw [bland, if_pos rfl, Bool.and_eq_true] at h
          cases rest with
          | nil => cases h.1
          | cons d rest =>
            have hd : d ≠ ch '-' := of_decide_eq_true h.1
            apply (flSqlSkip_pair rfl (by decide) (by decide) d _).trans
            rw [if_neg fun h => h.elim (fun h => hd h.2) fun h => absurd h.1 (by decide),
              if_neg fun h => absurd h.1 (by decide), if_neg fun h => absurd h.1 (by decide)]
        · rw [bland, if_neg hminus, Bool.and_eq_true] at h
          exact flSqlSkip_plain (isPlain_of_notMem_special hname hminus (of_decide_eq_true h.1)) _

/-- A bland text that starts with something other than a minus stands for itself. -/
theorem stands_of_bland {a : Bytes} (h : bland a = true) (hne : a ≠ [])
    (hminus : a.head? ≠ some (ch '-')) : Stands a where
  ne_nil := hne
  head d hd c hc := by
    have hspecial := notMem_special_of_bland h (List.mem_of_mem_head? hd)
    have hne : ∀ x ∈ special, d ≠ x := fun x hx h => hspecial (h ▸ hx)
    exact joins_of_apart hc (hne _ (by decide)) (fun h => hminus (h ▸ hd)) (hne _ (by decide))
      (hne _ (by decide))
  scans := by
    obtain ⟨l, -, hscan⟩ := scans_bland a.length le_rfl h
    have happart : ∀ t : Bytes, (∀ d ∈ t.head?, apart d = true) → Scans flSqlSkip (a ++ t) l t :=
      fun t ht => hscan t fun d hd => (apart_iff.1 (ht d hd)).2.1
    rw [segments_of_scans happart]
    exact happart

theorem isWord_of_bland {a s : Bytes} (h : bland a = true) (hs : s ∈ segments flSqlSkip a) :
    isWord s := by
  obtain ⟨l, hl, hscan⟩ := scans_bland a.length le_rfl h
  rw [segments_of_scans fun t ht => hscan t fun d hd => (apart_iff.1 (ht d hd)).2.1] at hs
  exact hl s hs

/-- A bland text in front of something that is no character of a name. -/
theorem scans_bland_append {a t : Bytes} (h : bland a = true)
    (ht : ∀ d ∈ t.head?, isNameChar d = false) :
    Scans flSqlSkip (a ++ t) (segments flSqlSkip a) t := by
  obtain ⟨l, -, hscan⟩ := scans_bland a.length le_rfl h
  rw [segments_of_scans fun t ht => hscan t fun d hd => (apart_iff.1 (ht d hd)).2.1]
  exact hscan t ht

/-- A bland text and a blank are cut into their own segments whatever follows. -/
theorem scans_bland_blank {a : Bytes} (h : bland a = true) (t : Bytes) :
    Scans flSqlSkip (a ++ [ch ' '] ++ t) (segments flSqlSkip (a ++ [ch ' '])) t := by
  have hblank : ∀ t : Bytes, Scans flSqlSkip (a ++ [ch ' '] ++ t)
      (segments flSqlSkip a ++ [[ch ' ']]) t := by
    intro t
    have hfront : Scans flSqlSkip (a ++ ([ch ' '] ++ t)) (segments flSqlSkip a) ([ch ' '] ++ t) :=
      scans_bland_append h fun d hd => by
        cases hd
        decide
    rw [List.append_assoc]
    exact hfront.append (.one (List.cons_ne_nil _ _) (width_of_none (flSqlSkip_plain rfl t)))
  have hall := hblank []
  rw [List.append_nil] at hall
  rw [hall.segments_eq]
  exact hblank t

/-! ## Numbers -/

theorem digit_bland {c : UInt8} (h : isDigit c = true) : c ≠ ch '-' ∧ c ∉ special := by
  revert h
  apply forall_byte (P := fun c => isDigit c = true → c ≠ ch '-' ∧ c ∉ special)
  decide +kernel

theorem blank_bland {c : UInt8} (h : isParamBlank c = true) : c ≠ ch '-' ∧ c ∉ special := by
  revert h
  apply forall_byte (P := fun c => isParamBlank c = true → c ≠ ch '-' ∧ c ∉ special)
  decide +kernel

theorem bland_digits {a : Bytes} (h : ∀ c ∈ a, isDigit c = true) : bland a = true :=
  bland_of_forall fun c hc => digit_bland (h c hc)

/-- A sign is bland in front of what starts with something other than a minus. -/
theorem bland_signed {sign s : Bytes} (hsign : Sign sign) (hs : bland s = true) {c : UInt8}
    (hc : s.head? = some c) (hminus : c ≠ ch '-') : bland (sign ++ s) = true := by
  obtain ⟨rest, rfl⟩ := List.head?_eq_some_iff.1 hc
  rcases hsign with rfl | rfl | rfl
  · exact hs
  · exact bland_minus hminus hs
  · exact bland_cons (by decide) (by decide) hs

theorem bland_mantissa {s : Bytes} (h : Mantissa s) : bland s = true := by
  cases h with
  | whole _ hint => exact bland_digits hint
  | pointed _ hint hfrac =>
    exact bland_append (bland_digits hint) (bland_cons (by decide) (by decide) (bland_digits hfrac))

theorem bland_exponent {s : Bytes} (h : Exponent s) : bland s = true := by
  cases h with
  | none => rfl
  | some he hsign hne hdigits =>
    obtain ⟨d, digits, rfl⟩ := List.exists_cons_of_ne_nil hne
    have hsigned := bland_signed hsign (bland_digits hdigits) rfl
      (digit_bland (hdigits d List.mem_cons_self)).1
    rcases he with rfl | rfl <;> exact bland_cons (by decide) (by decide) hsigned

theorem bland_unsignedNumber {s : Bytes} (h : UnsignedNumber s) : bland s = true := by
  obtain ⟨hmantissa, hexponent⟩ := h
  exact bland_append (bland_mantissa hmantissa) (bland_exponent hexponent)

theorem bland_of_isNumericLiteral {text : Bytes} (h : isNumericLiteral text = true) :
    bland text = true ∧ text ≠ [] := by
  obtain ⟨hfront, hsign, hnumber, hback⟩ := isNumericLiteral_iff.1 h
  obtain ⟨c, rest, hhead, hc⟩ := hnumber.exists_head
  have hblanks : ∀ {s : Bytes}, ParamBlanks s → bland s = true := fun hs =>
    bland_of_forall fun d hd => blank_bland (paramBlanks_iff.1 hs d hd)
  have hminus : c ≠ ch '-' := by
    rintro rfl
    exact absurd (numberEdge_facts hc).2.1 (by decide)
  have hsigned := bland_signed hsign (bland_unsignedNumber hnumber) (by rw [hhead]; rfl) hminus
  refine ⟨bland_append (hblanks hfront) (bland_append hsigned (hblanks hback)), ?_⟩
  rw [hhead]
  simp

theorem bland_appendNumber {text : Bytes} (h : bland text = true) :
    bland (appendNumber text) = true := by
  unfold appendNumber
  split_ifs
  · exact bland_append (bland_append (by decide) h) (by decide)
  · exact h

theorem head_appendNumber (text : Bytes) : (appendNumber text).head? ≠ some (ch '-') := by
  unfold appendNumber
  split_ifs with hminus
  · exact fun h => absurd (Option.some.inj h) (by decide)
  · intro h
    apply hminus
    rw [List.eq_cons_of_mem_head? h, List.dropWhile_cons_of_neg (by decide)]
    rfl

theorem stands_appendNumber {text : Bytes} (h : bland text = true) (hne : text ≠ []) :
    Stands (appendNumber text) := by
  refine stands_of_bland (bland_appendNumber h) ?_ (head_appendNumber text)
  unfold appendNumber
  split_ifs
  · exact fun h => hne (List.append_eq_nil_iff.1 (List.append_eq_nil_iff.1 h).1).2
  · exact hne

theorem bland_natText (n : ℕ) : bland (natText n) = true :=
  bland_digits fun _ hc => isDigit_of_mem_natText hc

theorem bland_intText (n : ℤ) : bland (intText n) = true := by
  unfold intText
  split_ifs
  · obtain ⟨d, rest, hd⟩ := List.exists_cons_of_ne_nil (natText_ne_nil n.natAbs)
    have hdigit : isDigit d = true := isDigit_of_mem_natText (n := n.natAbs) (by rw [hd]; simp)
    rw [hd]
    apply bland_minus (digit_bland hdigit).1
    rw [← hd]
    exact bland_natText _
  · exact bland_natText _

/-- An integer of the C types fits the buffer it is printed to. -/
theorem stands_printedInt {n : ℤ} (h : n.natAbs < 10 ^ 20) :
    Stands (appendNumber (printedNumber (intText n))) := by
  have hlen := length_intText_le (by decide) h
  have hprinted : printedNumber (intText n) = intText n :=
    snprintf_of_lt (lt_of_le_of_lt hlen (by decide))
  rw [hprinted]
  apply stands_appendNumber (bland_intText n)
  unfold intText
  split_ifs
  · exact List.cons_ne_nil _ _
  · exact natText_ne_nil _

theorem stands_printedNat {n : ℕ} (h : n < 10 ^ 20) : Stands (printedNumber (natText n)) := by
  have hlen := length_natText_le (by decide) h
  have hprinted : printedNumber (natText n) = natText n :=
    snprintf_of_lt (lt_of_le_of_lt hlen (by decide))
  rw [hprinted]
  refine stands_of_bland (bland_natText n) (natText_ne_nil n) fun hhead => ?_
  exact (digit_bland (isDigit_of_mem_natText (List.mem_of_mem_head? hhead))).1 rfl

/-! ## Strings -/

/-- What a string segment says behind its opening quote: a backslash escapes the next character, a
doubled quote is a quote, and the quote that closes it comes last. -/
def unescapeBody : Bytes → Option Bytes
  | [] => none
  | [c] => if c = ch '\'' then some [] else none
  | c :: d :: rest =>
      if c = ch '\\' then (unescapeBody rest).map (d :: ·)
      else if c = ch '\'' then if d = ch '\'' then (unescapeBody rest).map (d :: ·) else none
      else (unescapeBody (d :: rest)).map (c :: ·)

/-- What a complete string segment says. -/
def unescapeString : Bytes → Option Bytes
  | [] => none
  | c :: body => if c = ch '\'' then unescapeBody body else none

theorem stringLength_cons {c : UInt8} (hback : c ≠ ch '\\') (hquote : c ≠ ch '\'') (s : Bytes) :
    stringLength (c :: s) = 1 + stringLength s := by
  cases s with
  | nil => rfl
  | cons d rest => rw [stringLength, if_neg hback, if_neg hquote]

theorem unescapeBody_cons {c : UInt8} (hback : c ≠ ch '\\') (hquote : c ≠ ch '\'') (s : Bytes) :
    unescapeBody (c :: s) = (unescapeBody s).map (c :: ·) := by
  cases s with
  | nil => exact if_neg hquote
  | cons d rest => rw [unescapeBody, if_neg hback, if_neg hquote]

theorem escapeStringByte_cases (c : UInt8) :
    (c = ch '\'' ∧ escapeStringByte c = [ch '\'', c]) ∨
      (c = ch '\\' ∧ escapeStringByte c = [ch '\\', c]) ∨
      (c ≠ ch '\\' ∧ c ≠ ch '\'' ∧ escapeStringByte c = [c]) := by
  unfold escapeStringByte
  by_cases hquote : c = ch '\''
  · exact Or.inl ⟨hquote, if_pos hquote⟩
  rw [if_neg hquote]
  by_cases hback : c = ch '\\'
  · exact Or.inr (Or.inl ⟨hback, if_pos hback⟩)
  · exact Or.inr (Or.inr ⟨hback, hquote, if_neg hback⟩)

/-- The escaped text ends at the quote behind it. -/
theorem stringLength_escaped {t : Bytes} (ht : ∀ d ∈ t.head?, d ≠ ch '\'') (text : Bytes) :
    stringLength (text.flatMap escapeStringByte ++ ch '\'' :: t) =
      (text.flatMap escapeStringByte).length + 1 := by
  induction text with
  | nil =>
    cases t with
    | nil => rfl
    | cons d t =>
      rw [List.flatMap_nil, List.nil_append, stringLength, if_neg (by decide), if_pos rfl,
        if_pos (ht d rfl)]
      rfl
  | cons c text ih =>
    rw [List.flatMap_cons, List.append_assoc, List.length_append]
    obtain ⟨hquote, hescape⟩ | ⟨-, hescape⟩ | ⟨hback, hquote, hescape⟩ := escapeStringByte_cases c
    · rw [hescape, List.cons_append, List.singleton_append, stringLength, if_neg (by decide),
        if_pos rfl, if_neg (not_not_intro hquote), ih, Nat.add_assoc]
      rfl
    · rw [hescape, List.cons_append, List.singleton_append, stringLength, if_pos rfl, ih,
        Nat.add_assoc]
      rfl
    · rw [hescape, List.singleton_append, stringLength_cons hback hquote, ih, Nat.add_assoc]
      rfl

/-- Escaping a text and undoing it gives the text back. -/
theorem unescapeBody_escaped (text : Bytes) :
    unescapeBody (text.flatMap escapeStringByte ++ [ch '\'']) = some text := by
  induction text with
  | nil => rfl
  | cons c text ih =>
    rw [List.flatMap_cons, List.append_assoc]
    obtain ⟨hquote, hescape⟩ | ⟨-, hescape⟩ | ⟨hback, hquote, hescape⟩ := escapeStringByte_cases c
    · rw [hescape, List.cons_append, List.singleton_append, unescapeBody, if_neg (by decide),
        if_pos rfl, if_pos hquote, ih]
      rfl
    · rw [hescape, List.cons_append, List.singleton_append, unescapeBody, if_pos rfl, ih]
      rfl
    · rw [hescape, List.singleton_append, unescapeBody_cons hback hquote, ih]
      rfl

theorem appendStringLiteral_eq (text : Bytes) :
    appendStringLiteral text = ch '\'' :: (text.flatMap escapeStringByte ++ [ch '\'']) := rfl

theorem unescapeString_appendStringLiteral (text : Bytes) :
    unescapeString (appendStringLiteral text) = some text := by
  rw [appendStringLiteral_eq, unescapeString, if_pos rfl]
  exact unescapeBody_escaped text

/-- A string literal is one segment in front of anything but a quote. -/
theorem width_appendStringLiteral {t : Bytes} (ht : ∀ d ∈ t.head?, d ≠ ch '\'') (text : Bytes) :
    width flSqlSkip (appendStringLiteral text ++ t) = (appendStringLiteral text).length := by
  rw [appendStringLiteral_eq, List.cons_append, List.append_assoc, List.singleton_append,
    width_of_some (flSqlSkip_string _), stringLength_escaped ht, List.length_cons,
    List.length_append, Nat.add_comm]
  rfl

/-- A string literal with a bland text behind it. -/
theorem scans_string {tail : Bytes} (htail : bland tail = true) (text : Bytes) {t : Bytes}
    (ht : ∀ d ∈ t.head?, apart d = true) :
    Scans flSqlSkip (appendStringLiteral text ++ tail ++ t)
      (appendStringLiteral text :: segments flSqlSkip tail) t := by
  obtain ⟨l, -, hscan⟩ := scans_bland tail.length le_rfl htail
  have hname : ∀ s : Bytes, (∀ d ∈ s.head?, apart d = true) → Scans flSqlSkip (tail ++ s) l s :=
    fun s hs => hscan s fun d hd => (apart_iff.1 (hs d hd)).2.1
  rw [segments_of_scans hname, List.append_assoc]
  refine .cons (List.cons_ne_nil _ _) (width_appendStringLiteral ?_ text) (hname t ht)
  intro d hd
  cases tail with
  | nil => exact (apart_iff.1 (ht d hd)).1
  | cons c tail =>
    cases hd
    rintro rfl
    exact notMem_special_of_bland htail (List.mem_cons_self ..) (by decide)

theorem segments_string {tail : Bytes} (htail : bland tail = true) (text : Bytes) :
    segments flSqlSkip (appendStringLiteral text ++ tail) =
      appendStringLiteral text :: segments flSqlSkip tail :=
  segments_of_scans fun _ ht => scans_string htail text ht

theorem stands_string {tail : Bytes} (htail : bland tail = true) (text : Bytes) :
    Stands (appendStringLiteral text ++ tail) where
  ne_nil := List.cons_ne_nil _ _
  head d hd c hc := by
    cases hd
    exact joins_of_apart hc (by decide) (by decide) (by decide) (by decide)
  scans t ht := by
    rw [segments_string htail]
    exact scans_string htail text ht

/-! ## Binary values -/

theorem hexByte_escaped (c : UInt8) : (hexByte c).flatMap escapeStringByte = hexByte c := by
  apply forall_byte (P := fun c => (hexByte c).flatMap escapeStringByte = hexByte c)
  decide +kernel

/-- A binary literal is the name `X` and a string. -/
theorem appendBinaryLiteral_eq (bytes : Bytes) :
    appendBinaryLiteral bytes = ch 'X' :: appendStringLiteral (bytes.flatMap hexByte) := by
  have hhex : (bytes.flatMap hexByte).flatMap escapeStringByte = bytes.flatMap hexByte := by
    rw [List.flatMap_assoc]
    congr 1
    funext c
    exact hexByte_escaped c
  rw [appendStringLiteral_eq, hhex]
  rfl

theorem stands_appendBinaryLiteral (bytes : Bytes) : Stands (appendBinaryLiteral bytes) := by
  rw [appendBinaryLiteral_eq]
  set literal := appendStringLiteral (bytes.flatMap hexByte) with hliteral
  have hscan : ∀ t : Bytes, (∀ d ∈ t.head?, apart d = true) →
      Scans flSqlSkip (ch 'X' :: literal ++ t) [[ch 'X'], literal] t := by
    intro t ht
    have hquote : ∀ d ∈ t.head?, d ≠ ch '\'' := fun d hd => (apart_iff.1 (ht d hd)).1
    refine .cons (List.cons_ne_nil (ch 'X') []) ?_
      (.one (List.cons_ne_nil _ _) (width_appendStringLiteral hquote _))
    refine width_name (w := []) (by decide) (fun _ h => absurd h List.not_mem_nil) fun d hd => ?_
    cases hd
    decide
  refine ⟨List.cons_ne_nil _ _, fun d hd c hc => ?_, ?_⟩
  · cases hd
    exact joins_of_apart hc (by decide) (by decide) (by decide) (by decide)
  · rw [segments_of_scans hscan]
    exact hscan

/-! ## Dates and times -/

/-- A character of a date or a time that needs no escape. -/
def isDateChar (c : UInt8) : Bool := isDigit c || c ∈ lit "-:.T"

theorem dateChar_escaped {text : Bytes} (h : ∀ c ∈ text, isDateChar c = true) :
    text.flatMap escapeStringByte = text := by
  have hone : ∀ c, isDateChar c = true → escapeStringByte c = [c] := by
    intro c
    apply forall_byte (P := fun c => isDateChar c = true → escapeStringByte c = [c])
    decide +kernel
  induction text with
  | nil => rfl
  | cons c text ih =>
    rw [List.flatMap_cons, hone c (h c (List.mem_cons_self ..)),
      ih fun d hd => h d (List.mem_cons_of_mem c hd)]
    rfl

theorem dateChar_natTextPadded {w n : ℕ} {c : UInt8} (hc : c ∈ natTextPadded w n) :
    isDateChar c = true := by
  unfold isDateChar
  rcases List.mem_append.1 hc with hc | hc
  · rw [List.eq_of_mem_replicate hc]
    decide
  · rw [isDigit_of_mem_natText hc]
    rfl

theorem dateChar_intTextPadded {w : ℕ} {n : ℤ} {c : UInt8} (hc : c ∈ intTextPadded w n) :
    isDateChar c = true := by
  unfold intTextPadded at hc
  split_ifs at hc
  · rcases List.mem_cons.1 hc with rfl | hc
    · decide
    · exact dateChar_natTextPadded hc
  · exact dateChar_natTextPadded hc

theorem length_natTextPadded_le {w n k : ℕ} (hk : 0 < k) (hw : w ≤ k) (h : n < 10 ^ k) :
    (natTextPadded w n).length ≤ k := by
  have hlen := length_natText_le hk h
  rw [natTextPadded, List.length_append, List.length_replicate]
  omega

theorem length_intTextPadded_le {w k : ℕ} {n : ℤ} (hk : 0 < k) (hw : w ≤ k)
    (h : n.natAbs < 10 ^ k) : (intTextPadded w n).length ≤ k + 1 := by
  unfold intTextPadded
  split_ifs
  · exact Nat.succ_le_succ (length_natTextPadded_le hk (by omega) h)
  · exact Nat.le_succ_of_le (length_natTextPadded_le hk hw h)

theorem dateChar_append {a b : Bytes} (ha : ∀ c ∈ a, isDateChar c = true)
    (hb : ∀ c ∈ b, isDateChar c = true) : ∀ c ∈ a ++ b, isDateChar c = true := fun c hc =>
  (List.mem_append.1 hc).elim (ha c) (hb c)

theorem dateChar_dateText (year : Int16) (month day : UInt16) :
    ∀ c ∈ dateText year month day, isDateChar c = true := by
  unfold dateText
  refine dateChar_append (dateChar_append (dateChar_append (dateChar_append ?_ ?_) ?_) ?_) ?_
  · exact fun _ => dateChar_intTextPadded
  · exact forall_mem_of_all (by decide)
  · exact fun _ => dateChar_natTextPadded
  · exact forall_mem_of_all (by decide)
  · exact fun _ => dateChar_natTextPadded

theorem dateChar_timeText (hour minute second : UInt16) :
    ∀ c ∈ timeText hour minute second, isDateChar c = true := by
  unfold timeText
  refine dateChar_append (dateChar_append (dateChar_append (dateChar_append ?_ ?_) ?_) ?_) ?_
  · exact fun _ => dateChar_natTextPadded
  · exact forall_mem_of_all (by decide)
  · exact fun _ => dateChar_natTextPadded
  · exact forall_mem_of_all (by decide)
  · exact fun _ => dateChar_natTextPadded

theorem dateChar_timestamp (year : Int16) (month day hour minute second : UInt16) (n : ℕ) :
    ∀ c ∈ dateText year month day ++ lit "T" ++ timeText hour minute second ++ lit "." ++
      natTextPadded 9 n, isDateChar c = true := by
  refine dateChar_append (dateChar_append (dateChar_append (dateChar_append ?_ ?_) ?_) ?_) ?_
  · exact dateChar_dateText year month day
  · exact forall_mem_of_all (by decide)
  · exact dateChar_timeText hour minute second
  · exact forall_mem_of_all (by decide)
  · exact fun _ => dateChar_natTextPadded

theorem length_field_le (n : UInt16) : (natTextPadded 2 n.toNat).length ≤ 5 :=
  length_natTextPadded_le (by decide) (by decide) (lt_trans n.toNat_lt (by decide))

theorem length_dateText_le (year : Int16) (month day : UInt16) :
    (dateText year month day).length ≤ 18 := by
  have hyear : (intTextPadded 4 year.toInt).length ≤ 6 := by
    apply length_intTextPadded_le (by decide) (by decide)
    have hle := year.le_toInt
    have hlt := year.toInt_lt
    omega
  have hmonth := length_field_le month
  have hday := length_field_le day
  have hminus : (lit "-").length = 1 := rfl
  simp only [dateText, List.length_append, hminus]
  omega

theorem length_timeText_le (hour minute second : UInt16) :
    (timeText hour minute second).length ≤ 17 := by
  have hhour := length_field_le hour
  have hminute := length_field_le minute
  have hsecond := length_field_le second
  have hcolon : (lit ":").length = 1 := rfl
  simp only [timeText, List.length_append, hcolon]
  omega

/-- A date or a time in quotes with its cast, of which the buffer may cut off the end. -/
theorem stands_printedString {text : Bytes} (tail : Bytes)
    (htext : ∀ c ∈ text, isDateChar c = true) (hlen : text.length ≤ 61)
    (htail : ∀ c ∈ tail, c ≠ ch '-' ∧ c ∉ special) :
    Stands (snprintf paramTextSize (lit "'" ++ text ++ (lit "'" ++ tail))) := by
  have hliteral : lit "'" ++ text ++ (lit "'" ++ tail) = appendStringLiteral text ++ tail := by
    rw [← List.append_assoc, appendStringLiteral, dateChar_escaped htext]
  have hlong : (appendStringLiteral text).length ≤ paramTextSize - 1 := by
    rw [appendStringLiteral, dateChar_escaped htext, List.length_append, List.length_append]
    have hquote : (lit "'").length = 1 := rfl
    rw [hquote]
    change 1 + text.length + 1 ≤ 63
    omega
  rw [hliteral, snprintf, List.take_append, List.take_of_length_le hlong]
  exact stands_string (bland_of_forall fun c hc => htail c (List.mem_of_mem_take hc)) text

/-! ## What a parameter is rendered as -/

/-- A value whose text is left to the printing of floating-point numbers. -/
def CValue.isFloating : CValue → Bool
  | .float _ | .double _ => true
  | _ => false

theorem bland_cast (sqlType : SqlType) : bland sqlType.cast = true := by
  unfold SqlType.cast
  split <;> decide

theorem stands_appendCharLiteral {sqlType : SqlType} {text literal : Bytes}
    (h : appendCharLiteral sqlType text = .ok literal) : Stands literal := by
  unfold appendCharLiteral at h
  split_ifs at h with hnumeric htext
  · cases h
    obtain ⟨hbland, hne⟩ := bland_of_isNumericLiteral htext
    exact stands_appendNumber hbland hne
  · cases h
    exact stands_string (bland_cast sqlType) text

theorem stands_appendValueLiteral {sqlType : SqlType} {length : ℤ} {value : CValue}
    {literal : Bytes} (hvalue : value.isFloating = false)
    (h : appendValueLiteral sqlType length value = .ok literal) : Stands literal := by
  cases value with
  | char memory => exact stands_appendCharLiteral h
  | wchar | other => cases h
  | float | double => cases hvalue
  | slong n | sshort n | stinyint n | sbigint n =>
    cases h
    have hle := n.le_toInt
    have hlt := n.toInt_lt
    exact stands_printedInt (by omega)
  | ulong n | ushort n | utinyint n | ubigint n =>
    cases h
    exact stands_printedNat (lt_trans n.toNat_lt (by decide))
  | bit n =>
    cases h
    split_ifs
    · exact stands_of_bland (by decide) (by decide) (by decide)
    · exact stands_of_bland (by decide) (by decide) (by decide)
  | binary memory =>
    cases h
    exact stands_appendBinaryLiteral _
  | date year month day =>
    cases h
    have hlen := length_dateText_le year month day
    exact stands_printedString (lit "::DATE") (dateChar_dateText year month day) (by omega)
      (forall_mem_of_all (by decide))
  | time hour minute second =>
    cases h
    have hlen := length_timeText_le hour minute second
    exact stands_printedString (lit "::TIME") (dateChar_timeText hour minute second)
      (by omega) (forall_mem_of_all (by decide))
  | timestamp year month day hour minute second fraction =>
    cases h
    have hdate := length_dateText_le year month day
    have htime := length_timeText_le hour minute second
    have hfraction : (natTextPadded 9 fraction.toNat).length ≤ 10 :=
      length_natTextPadded_le (by decide) (by decide) (lt_trans fraction.toNat_lt (by decide))
    have hone : (lit "T").length = 1 ∧ (lit ".").length = 1 := ⟨rfl, rfl⟩
    have hstands := stands_printedString (lit "::TIMESTAMP_NTZ")
      (dateChar_timestamp year month day hour minute second fraction.toNat)
      (by simp only [List.length_append, hone]; omega) (forall_mem_of_all (by decide))
    simp only [List.append_assoc] at hstands ⊢
    exact hstands

def BoundParam.indicator (param : BoundParam) : ℤ := param.strLenOrInd.getD sqlNts

/-- A parameter that is rendered is a bound NULL or a bound value with a length. -/
theorem appendParamLiteral_cases {param : BoundParam} {literal : Bytes}
    (h : appendParamLiteral param = .ok literal) :
    ((param.buffer = none ∨ param.indicator = sqlNullData) ∧ literal = lit "NULL") ∨
      ∃ value, param.buffer = some value ∧ param.indicator ≠ sqlNullData ∧
        appendValueLiteral param.sqlType param.indicator value = .ok literal := by
  unfold appendParamLiteral at h
  cases hbound : param.bound with
  | false =>
    rw [hbound] at h
    cases h
  | true =>
    rw [hbound] at h
    cases hbuffer : param.buffer with
    | none =>
      rw [hbuffer] at h
      cases h
      exact Or.inl ⟨Or.inl rfl, rfl⟩
    | some value =>
      rw [hbuffer] at h
      dsimp only at h
      change (if param.indicator = sqlNullData then _ else _) = _ at h
      split_ifs at h with hnull
      · cases h
        exact Or.inl ⟨Or.inr hnull, rfl⟩
      · exact Or.inr ⟨value, rfl, hnull, h⟩

theorem appendParamLiteral_of_length {param : BoundParam} {value : CValue} (hbound : param.bound = true)
    (hbuffer : param.buffer = some value) (hlength : param.indicator = sqlNts ∨ 0 ≤ param.indicator) :
    appendParamLiteral param = appendValueLiteral param.sqlType param.indicator value := by
  unfold appendParamLiteral
  rw [hbound, hbuffer]
  change (if param.indicator = sqlNullData then _ else
    if param.indicator < 0 ∧ param.indicator ≠ sqlNts then _ else _) = _
  rw [if_neg, if_neg]
  · rfl
  · rintro ⟨hneg, hne⟩
    exact hlength.elim hne hneg.not_ge
  · intro hnull
    rw [hnull] at hlength
    revert hlength
    decide

theorem stands_appendParamLiteral {param : BoundParam} {literal : Bytes}
    (hvalue : ∀ value ∈ param.buffer, value.isFloating = false)
    (h : appendParamLiteral param = .ok literal) : Stands literal := by
  rcases appendParamLiteral_cases h with ⟨-, rfl⟩ | ⟨value, hbuffer, -, h⟩
  · exact stands_of_bland (by decide) (by decide) (by decide)
  · exact stands_appendValueLiteral (hvalue value hbuffer) h

end FrostlakeOdbc
