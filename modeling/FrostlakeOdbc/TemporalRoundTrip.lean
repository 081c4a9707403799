import FrostlakeOdbc.TemporalProof

/-!
# Temporal parameters come back

A date, time or timestamp parameter is rendered with every field at its full width, which is what the
readers of `results.c` need. So the struct comes back, also from the shorter forms that the engine
gives the same timestamp (`temporal_round_trip`).
-/

namespace FrostlakeOdbc

open CString

/-! ## The forms of a text -/

/-- The text inside the quotes of a literal. -/
def insideQuotes (literal : Bytes) : Bytes := (literal.drop 1).takeWhile (· ≠ ch '\'')

/-- A text without the zeros it ends with. -/
def trimZeros (text : Bytes) : Bytes := (text.reverse.dropWhile (· = ch '0')).reverse

/-- A timestamp without the zeros at the end of its fraction, and without the point if no digit is
left. -/
def trimFraction (text : Bytes) : Bytes :=
  if ch '.' ∈ text then
    let kept := trimZeros text
    if kept.getLast? = some (ch '.') then kept.dropLast else kept
  else text

/-- A timestamp with a space for its `T`. -/
def withSpace (text : Bytes) : Bytes := text.map fun c => if c = ch 'T' then ch ' ' else c

/-- The forms the engine may give a text that was rendered for it. -/
def engineForms (text : Bytes) : List Bytes :=
  [text, trimFraction text, withSpace text, withSpace (trimFraction text)]

/-- The fields of a date, a time or a timestamp have no more digits than their places. -/
def CValue.Fits : CValue → Prop
  | .date year month day =>
      (0 ≤ year.toInt ∧ year.toInt ≤ 9999) ∧ month.toNat ≤ 99 ∧ day.toNat ≤ 99
  | .time hour minute second => hour.toNat ≤ 99 ∧ minute.toNat ≤ 99 ∧ second.toNat ≤ 99
  | .timestamp year month day hour minute second fraction =>
      ((0 ≤ year.toInt ∧ year.toInt ≤ 9999) ∧ month.toNat ≤ 99 ∧ day.toNat ≤ 99) ∧
        (hour.toNat ≤ 99 ∧ minute.toNat ≤ 99 ∧ second.toNat ≤ 99) ∧ fraction.toNat ≤ 999999999
  | _ => False

/-- What is read from a text, with anything behind its NUL, is the struct. -/
def CValue.ReadFrom (text : Bytes) : CValue → Prop
  | .date year month day =>
      ∀ beyond, parseDatePart (text ++ 0 :: beyond) = some (year, month, day)
  | .time hour minute second =>
      ∀ beyond, parseTimePart (text ++ 0 :: beyond) = some ((hour, minute, second), 0)
  | .timestamp year month day hour minute second fraction =>
      ∀ beyond, parseTimestamp (text ++ 0 :: beyond) =
        some (.timestamp year month day hour minute second fraction)
  | _ => False

section

variable {text : Bytes}

/-! ## Full width -/

theorem threeFields_padded {w a b c : ℕ} (sep : UInt8) (hw : 0 < w) (ha : a < 10 ^ w) (hb : b ≤ 99)
    (hc : c ≤ 99) :
    ThreeFields w sep a b c
      (natTextPadded w a ++ [sep] ++ natTextPadded 2 b ++ [sep] ++ natTextPadded 2 c) :=
  ⟨_, _, _, field_natTextPadded hw ha, field_natTextPadded (by decide) (by omega),
    field_natTextPadded (by decide) (by omega), by simp⟩

theorem length_padded {w a b c : ℕ} (sep : UInt8) (hw : 0 < w) (ha : a < 10 ^ w) (hb : b ≤ 99)
    (hc : c ≤ 99) :
    (natTextPadded w a ++ [sep] ++ natTextPadded 2 b ++ [sep] ++ natTextPadded 2 c).length = w + 6 := by
  have hb' : b < 10 ^ 2 := by omega
  have hc' : c < 10 ^ 2 := by omega
  simp only [List.length_append, List.length_singleton, length_natTextPadded hw ha,
    length_natTextPadded (by decide) hb', length_natTextPadded (by decide) hc']

theorem intTextPadded_of_nonneg {w : ℕ} {n : ℤ} (h : 0 ≤ n) :
    intTextPadded w n = natTextPadded w n.toNat := by
  unfold intTextPadded
  rw [if_neg (by omega), show n.natAbs = n.toNat by omega]

theorem fields_dateText {year : Int16} {month day : UInt16}
    (h : (0 ≤ year.toInt ∧ year.toInt ≤ 9999) ∧ month.toNat ≤ 99 ∧ day.toNat ≤ 99) :
    ThreeFields 4 (ch '-') year.toInt month.toNat day.toNat (dateText year month day) ∧
      (dateText year month day).length = 10 := by
  obtain ⟨⟨hnonneg, hyear⟩, hmonth, hday⟩ := h
  have hyear' : year.toInt.toNat < 10 ^ 4 := by omega
  have hfields := threeFields_padded (ch '-') (by decide : 0 < 4) hyear' hmonth hday
  rw [Int.toNat_of_nonneg hnonneg] at hfields
  unfold dateText
  rw [intTextPadded_of_nonneg hnonneg]
  exact ⟨hfields, length_padded (ch '-') (by decide) hyear' hmonth hday⟩

theorem fields_timeText {hour minute second : UInt16}
    (h : hour.toNat ≤ 99 ∧ minute.toNat ≤ 99 ∧ second.toNat ≤ 99) :
    ThreeFields 2 (ch ':') hour.toNat minute.toNat second.toNat (timeText hour minute second) ∧
      (timeText hour minute second).length = 8 := by
  obtain ⟨hhour, hminute, hsecond⟩ := h
  have hhour' : hour.toNat < 10 ^ 2 := by omega
  exact ⟨threeFields_padded (ch ':') (by decide) hhour' hminute hsecond,
    length_padded (ch ':') (by decide) hhour' hminute hsecond⟩

/-! ## Reading back -/

theorem readFrom_dateText {year : Int16} {month day : UInt16} (h : (CValue.date year month day).Fits) :
    (CValue.date year month day).ReadFrom (dateText year month day) := by
  intro beyond
  obtain ⟨hfields, -⟩ := fields_dateText h
  obtain ⟨date, hread, hyear, hmonth, hday, -⟩ := readDate_of_fields [] hfields (by simp)
  rw [List.append_nil] at hread
  rw [parseDatePart_of_read (hfields.notMem (by decide)), hread, Option.map_some,
    Int16.toInt_inj.1 hyear, UInt16.toNat_inj.1 hmonth, UInt16.toNat_inj.1 hday]

theorem readFrom_timeText {hour minute second : UInt16} (h : (CValue.time hour minute second).Fits) :
    (CValue.time hour minute second).ReadFrom (timeText hour minute second) := by
  intro beyond
  obtain ⟨hfields, height⟩ := fields_timeText h
  have hdrop : (timeText hour minute second).drop 0 = timeText hour minute second ++ [] := by simp
  have hlength : 0 + 8 ≤ (timeText hour minute second).length := by omega
  obtain ⟨time, hread, hhour, hminute, hsecond, -, hfraction⟩ :=
    readTime_of_fields hfields hdrop (by simp) hlength
  have hparse := parseTimePart_of_read (hfields.notMem (by decide)) (Nat.zero_le _) hread
    beyond
  have hnone : parseFraction ((timeText hour minute second).drop (0 + 8)) = 0 := by
    rw [List.drop_of_length_le (by omega)]
    exact parseFraction_of_ne (by decide)
  rw [List.drop_zero] at hparse
  rw [hparse, Option.map_some, UInt16.toNat_inj.1 hhour, UInt16.toNat_inj.1 hminute,
    UInt16.toNat_inj.1 hsecond, hfraction, hnone]

theorem readFrom_timestamp {year : Int16} {month day hour minute second : UInt16} {fraction : UInt32}
    {sep : UInt8} {digits after : Bytes}
    (h : (CValue.timestamp year month day hour minute second fraction).Fits) (hsep : Separates sep)
    (hafter : AfterSeconds digits after) (h0 : 0 ∉ after) (hfraction : nanoseconds digits = fraction.toNat) :
    (CValue.timestamp year month day hour minute second fraction).ReadFrom
      (dateText year month day ++ sep :: (timeText hour minute second ++ after)) := by
  intro beyond
  obtain ⟨hdate, htime, -⟩ := h
  obtain ⟨hdate, hten⟩ := fields_dateText hdate
  obtain ⟨htime, height⟩ := fields_timeText htime
  obtain ⟨d, t, hread, ⟨hyear, hmonth, hday⟩, ⟨hhour, hminute, hsecond⟩, hnanos⟩ :=
    readTimestamp_of_fields hdate hten hsep htime height.ge hafter (.inl height)
  have hzero : 0 ∉ dateText year month day ++ sep :: (timeText hour minute second ++ after) := by
    simp only [List.mem_append, List.mem_cons, not_or]
    exact ⟨hdate.notMem (by decide), hsep.ne.1.symm, htime.notMem (by decide), h0⟩
  rw [parseTimestamp_of_read hzero hread, Option.map_some]
  change some (Stored.timestamp d.year d.month d.day t.hour t.minute t.second t.fraction) = _
  rw [Int16.toInt_inj.1 hyear, UInt16.toNat_inj.1 hmonth, UInt16.toNat_inj.1 hday,
    UInt16.toNat_inj.1 hhour, UInt16.toNat_inj.1 hminute, UInt16.toNat_inj.1 hsecond,
    UInt32.toNat_inj.1 (hnanos.trans hfraction)]

/-! ## The shorter forms -/

/-- What is left of a point and the digits behind it when the digits are trimmed to `kept`. -/
def afterPoint (kept : Bytes) : Bytes := if kept = [] then [] else ch '.' :: kept

theorem exists_trimZeros (text : Bytes) :
    ∃ k, text = trimZeros text ++ List.replicate k (ch '0') := by
  have hsplit := List.takeWhile_append_dropWhile (p := (· = ch '0')) (l := text.reverse)
  have hzeros : text.reverse.takeWhile (· = ch '0') =
      List.replicate (text.reverse.takeWhile (· = ch '0')).length (ch '0') :=
    List.eq_replicate_of_mem fun c hc => of_decide_eq_true (List.mem_takeWhile_imp (p := (· = ch '0')) hc)
  refine ⟨(text.reverse.takeWhile (· = ch '0')).length, ?_⟩
  conv_lhs => rw [← text.reverse_reverse, ← hsplit, List.reverse_append, hzeros, List.reverse_replicate]
  rfl

theorem nanoseconds_append_zeros (digits : Bytes) (k : ℕ) :
    nanoseconds (digits ++ List.replicate k (ch '0')) = nanoseconds digits := by
  unfold nanoseconds
  rw [List.append_assoc, List.replicate_append_replicate, List.take_append, List.take_append,
    List.take_replicate, List.take_replicate, min_eq_left (by omega), min_eq_left (by omega)]

theorem nanoseconds_natTextPadded {n : ℕ} (h : n < 10 ^ 9) : nanoseconds (natTextPadded 9 n) = n := by
  have hnine := length_natTextPadded (by decide : 0 < 9) h
  unfold nanoseconds
  rw [List.take_left' hnine, leadingValue_natTextPadded]

theorem trimZeros_point {front digits : Bytes} :
    trimZeros (front ++ ch '.' :: digits) = front ++ ch '.' :: trimZeros digits := by
  unfold trimZeros
  have hpoint : (ch '.' :: front.reverse).dropWhile (· = ch '0') = ch '.' :: front.reverse :=
    List.dropWhile_cons_of_neg (by decide)
  rw [List.reverse_append, List.reverse_cons, List.append_assoc, List.singleton_append,
    List.dropWhile_append, hpoint]
  split
  · next hempty =>
    rw [List.isEmpty_iff.1 hempty, List.reverse_cons, List.reverse_reverse]
    rfl
  · rw [List.reverse_append, List.reverse_cons, List.reverse_reverse, List.append_assoc]
    rfl

theorem trimFraction_point (front : Bytes) {digits : Bytes} (hdigits : ∀ c ∈ digits, isDigit c = true) :
    trimFraction (front ++ ch '.' :: digits) = front ++ afterPoint (trimZeros digits) := by
  obtain ⟨k, hk⟩ := exists_trimZeros digits
  unfold trimFraction afterPoint
  rw [if_pos (by simp), trimZeros_point]
  dsimp only
  rcases List.eq_nil_or_concat (trimZeros digits) with hnil | ⟨kept, d, hkept⟩
  · rw [hnil, if_pos rfl, if_pos (by simp), List.append_nil, List.dropLast_concat]
  · have hd : isDigit d = true := hdigits d (by rw [hk, hkept]; simp)
    have hlast : (front ++ ch '.' :: (kept ++ [d])).getLast? = some d := by
      rw [← List.cons_append, ← List.append_assoc, List.getLast?_concat]
    rw [List.concat_eq_append] at hkept
    have hne : kept ++ [d] ≠ [] := by simp
    rw [hkept, hlast, if_neg fun h => (digit_ne hd).2.2.1 (Option.some.inj h), if_neg hne]

theorem mem_of_mem_afterPoint {c : UInt8} (h : c ∈ afterPoint text) (hc : c ≠ ch '.') : c ∈ text := by
  unfold afterPoint at h
  split at h
  · cases h
  · exact (List.mem_cons.1 h).resolve_left hc

theorem afterSeconds_afterPoint {digits : Bytes} (h : ∀ c ∈ digits, isDigit c = true) :
    AfterSeconds digits (afterPoint digits) := by
  refine ⟨[], .inl rfl, ?_⟩
  unfold afterPoint
  split
  · next hnil => exact .inl ⟨hnil, rfl⟩
  · next hne => exact .inr ⟨hne, h, by rw [List.append_nil]⟩

theorem withSpace_of_notMem (h : ch 'T' ∉ text) : withSpace text = text := by
  refine (List.map_congr_left fun c hc => ?_).trans (List.map_id text)
  exact if_neg fun e : c = ch 'T' => h (e ▸ hc)

theorem withSpace_separator {front more : Bytes} (hfront : ch 'T' ∉ front) (hmore : ch 'T' ∉ more) :
    withSpace (front ++ ch 'T' :: more) = front ++ ch ' ' :: more := by
  have hsplit : withSpace (front ++ ch 'T' :: more) = withSpace front ++ ch ' ' :: withSpace more := by
    simp [withSpace]
  rw [hsplit, withSpace_of_notMem hfront, withSpace_of_notMem hmore]

theorem insideQuotes_literal {rest : Bytes} (h : ch '\'' ∉ text)
    (hrest : rest.head? = some (ch '\'')) : insideQuotes (lit "'" ++ text ++ rest) = text := by
  rw [List.append_assoc]
  change (text ++ rest).takeWhile (· ≠ ch '\'') = text
  refine (takeWhile_append_stop (fun c hc => ?_) fun c hc => ?_).1
  · exact decide_eq_true fun e => h (e ▸ hc)
  · cases hrest.symm.trans hc
    decide

/-! ## The round trip -/

/-- What is printed for a date or a time stands in its quotes as it is. -/
theorem insideQuotes_printed {rest : Bytes} (htext : ∀ c ∈ text, isDateChar c = true)
    (hrest : rest.head? = some (ch '\'')) (hlength : text.length + rest.length + 1 < paramTextSize) :
    insideQuotes (snprintf paramTextSize (lit "'" ++ text ++ rest)) = text := by
  have hquote : (lit "'").length = 1 := rfl
  rw [snprintf_of_lt, insideQuotes_literal (fun hc => absurd (htext _ hc) (by decide)) hrest]
  simp only [List.length_append, hquote]
  omega

theorem forms_of_no_point (hpoint : ch '.' ∉ text) (hsep : ch 'T' ∉ text) {form : Bytes}
    (h : form ∈ engineForms text) : form = text := by
  have htrim : trimFraction text = text := if_neg hpoint
  simpa [engineForms, htrim, withSpace_of_notMem hsep] using h

/-- The forms of a timestamp differ in what separates the date from the time, and in the zeros of the
fraction that are kept. -/
theorem forms_of_timestamp {date time digits form : Bytes} (hdate : ch 'T' ∉ date)
    (htime : ch 'T' ∉ time) (hne : digits ≠ []) (hdigits : ∀ c ∈ digits, isDigit c = true)
    (h : form ∈ engineForms (date ++ ch 'T' :: (time ++ ch '.' :: digits))) :
    ∃ sep kept k, Separates sep ∧ digits = kept ++ List.replicate k (ch '0') ∧
      form = date ++ sep :: (time ++ afterPoint kept) := by
  obtain ⟨k, hk⟩ := exists_trimZeros digits
  have hfull : afterPoint digits = ch '.' :: digits := if_neg hne
  have htrim : trimFraction (date ++ ch 'T' :: (time ++ ch '.' :: digits)) =
      date ++ ch 'T' :: (time ++ afterPoint (trimZeros digits)) := by
    have hpoint := trimFraction_point (date ++ ch 'T' :: time) hdigits
    rw [List.append_assoc, List.append_assoc] at hpoint
    exact hpoint
  have hspace : ∀ kept, (∀ c ∈ kept, isDigit c = true) →
      withSpace (date ++ ch 'T' :: (time ++ afterPoint kept)) =
        date ++ ch ' ' :: (time ++ afterPoint kept) := by
    intro kept hkept
    refine withSpace_separator hdate ?_
    rw [List.mem_append, not_or]
    exact ⟨htime, fun hmem => absurd (hkept _ (mem_of_mem_afterPoint hmem (by decide))) (by decide)⟩
  have hkept : ∀ c ∈ trimZeros digits, isDigit c = true := fun c hc =>
    hdigits c (by rw [hk]; exact List.mem_append_left _ hc)
  simp only [engineForms, htrim, List.mem_cons, List.not_mem_nil, or_false] at h
  rw [← hfull, hspace digits hdigits, hspace _ hkept] at h
  have hall : digits = digits ++ List.replicate 0 (ch '0') := (List.append_nil _).symm
  rcases h with rfl | rfl | rfl | rfl
  · exact ⟨_, _, _, .inr rfl, hall, rfl⟩
  · exact ⟨_, _, _, .inr rfl, hk, rfl⟩
  · exact ⟨_, _, _, .inl rfl, hall, rfl⟩
  · exact ⟨_, _, _, .inl rfl, hk, rfl⟩

/-- A date, time or timestamp parameter with fields of no more digits than their places comes back
from every form of the text in its literal's quotes. -/
theorem temporal_round_trip {param : BoundParam} {value : CValue} {literal : Bytes}
    (hfits : value.Fits) (hbuffer : param.buffer = some value)
    (hindicator : param.indicator ≠ sqlNullData) (h : appendParamLiteral param = .ok literal) :
    ∀ form ∈ engineForms (insideQuotes literal), value.ReadFrom form := by
  have hvalue : appendValueLiteral param.sqlType param.indicator value = .ok literal := by
    rcases appendParamLiteral_cases h with ⟨hnull | hnull, -⟩ | ⟨v, hv, -, hliteral⟩
    · rw [hbuffer] at hnull
      cases hnull
    · exact absurd hnull hindicator
    · rw [hbuffer] at hv
      cases hv
      exact hliteral
  intro form hform
  cases value with
  | date year month day =>
    cases hvalue
    obtain ⟨hfields, hlength⟩ := fields_dateText hfits
    rw [insideQuotes_printed (dateChar_dateText year month day) rfl (by rw [hlength]; decide)] at hform
    rw [forms_of_no_point (hfields.notMem (by decide)) (hfields.notMem (by decide)) hform]
    exact readFrom_dateText hfits
  | time hour minute second =>
    cases hvalue
    obtain ⟨hfields, hlength⟩ := fields_timeText hfits
    rw [insideQuotes_printed (dateChar_timeText hour minute second) rfl (by rw [hlength]; decide)]
      at hform
    rw [forms_of_no_point (hfields.notMem (by decide)) (hfields.notMem (by decide)) hform]
    exact readFrom_timeText hfits
  | timestamp year month day hour minute second fraction =>
    cases hvalue
    obtain ⟨hdate, hten⟩ := fields_dateText hfits.1
    obtain ⟨htime, height⟩ := fields_timeText hfits.2.1
    have hfraction : fraction.toNat < 10 ^ 9 := Nat.lt_succ_of_le hfits.2.2
    have hnine := length_natTextPadded (by decide : 0 < 9) hfraction
    have hlength : (dateText year month day ++ lit "T" ++ timeText hour minute second ++ lit "." ++
        natTextPadded 9 fraction.toNat).length + (lit "'::TIMESTAMP_NTZ").length + 1 < paramTextSize := by
      simp only [List.length_append, hten, height, hnine]
      decide
    have hquoted := insideQuotes_printed
      (dateChar_timestamp year month day hour minute second fraction.toNat) rfl hlength
    simp only [List.append_assoc] at hform hquoted
    rw [hquoted] at hform
    obtain ⟨sep, kept, k, hsep, hkept, rfl⟩ := forms_of_timestamp (hdate.notMem (by decide))
      (htime.notMem (by decide)) (natTextPadded_ne_nil 9 _) (fun _ => isDigit_natTextPadded) hform
    have hdigits : ∀ c ∈ kept, isDigit c = true := fun c hc =>
      isDigit_natTextPadded (hkept ▸ List.mem_append_left _ hc)
    refine readFrom_timestamp hfits hsep (afterSeconds_afterPoint hdigits) ?_ ?_
    · exact fun h0 => absurd (hdigits 0 (mem_of_mem_afterPoint h0 (by decide))) (by decide)
    · rw [← nanoseconds_append_zeros kept k, ← hkept, nanoseconds_natTextPadded hfraction]
  | _ => cases hfits

end

/-- The last day there is, a tenth of a second before it ends. -/
theorem temporal_round_trip_last_day :
    lit "9999-12-31 23:59:59.9" ∈
        engineForms (insideQuotes (lit "'9999-12-31T23:59:59.900000000'::TIMESTAMP_NTZ")) ∧
      (CValue.timestamp 9999 12 31 23 59 59 900000000).ReadFrom (lit "9999-12-31 23:59:59.9") := by
  have hform : lit "9999-12-31 23:59:59.9" ∈
      engineForms (insideQuotes (lit "'9999-12-31T23:59:59.900000000'::TIMESTAMP_NTZ")) := by decide
  have hfits : (CValue.timestamp 9999 12 31 23 59 59 900000000).Fits :=
    ⟨⟨by decide, by decide, by decide⟩, ⟨by decide, by decide, by decide⟩, by decide⟩
  exact ⟨hform, @temporal_round_trip
    ⟨true, .typeTimestamp, some (.timestamp 9999 12 31 23 59 59 900000000), none⟩ _ _ hfits rfl
    (by decide) rfl _ hform⟩

end FrostlakeOdbc
