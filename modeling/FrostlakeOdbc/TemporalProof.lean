import FrostlakeOdbc.LiteralProof
import FrostlakeOdbc.Results
import FrostlakeOdbc.Lib.Scanf

/-!
# Dates and times

The parts of a timestamp are matched by `sscanf`, which takes fields of any width up to a limit, but
what follows them is looked for at fixed places. So a text is read right where its parts have their
full width (`timestampLaw_iff`), which they have in what the driver itself renders
(`temporal_round_trip`).
-/

namespace FrostlakeOdbc

open CString

/-! ## Reading within a text -/

/-- The character at a place of a text, or its NUL. Behind the NUL there is none. -/
def charAt (text : Bytes) (i : ℕ) : Option UInt8 := (text ++ [0])[i]?

/-- What `parse_date_part` reads, and the number of characters it says it consumed. -/
structure ReadDate where
  year : Int16
  month : UInt16
  day : UInt16
  consumed : ℕ

/-- What `parse_time_part` reads, and the number of characters in front of the fraction. -/
structure ReadTime where
  hour : UInt16
  minute : UInt16
  second : UInt16
  consumed : ℕ
  fraction : UInt32

/-- What `parse_timestamp` reads, with the time part if it comes to one. -/
structure ReadTimestamp where
  date : ReadDate
  time : Option ReadTime

/-- `parse_date_part`. -/
def readDate (text : Bytes) : Option ReadDate :=
  (sscanfThree 4 (ch '-') text).map fun (year, month, day) =>
    { year := Int16.ofInt year
      month := UInt16.ofNat (month % 2 ^ 16).toNat
      day := UInt16.ofNat (day % 2 ^ 16).toNat
      consumed := 10 }

/-- `parse_time_part` from a place of a text on. It is `none` where a character behind the NUL is read,
and `some none` where no time is found. -/
def readTime (text : Bytes) (start : ℕ) : Option (Option ReadTime) :=
  match sscanfThree 2 (ch ':') (text.drop start) with
  | none => some none
  | some (hour, minute, second) =>
      (charAt text (start + 8)).map fun _ =>
        some
          { hour := UInt16.ofNat (hour % 2 ^ 16).toNat
            minute := UInt16.ofNat (minute % 2 ^ 16).toNat
            second := UInt16.ofNat (second % 2 ^ 16).toNat
            consumed := 8
            fraction := parseFraction (text.drop (start + 8)) }

/-- `parse_timestamp`, with every place it reads checked to be in the text or its NUL. -/
def readTimestamp (text : Bytes) : Option (Option ReadTimestamp) :=
  match readDate text with
  | none => some none
  | some date =>
      (charAt text date.consumed).bind fun c =>
        if c = ch ' ' ∨ c = ch 'T' then
          (readTime text (date.consumed + 1)).map (Option.map fun time => ⟨date, some time⟩)
        else some (some ⟨date, none⟩)

/-- The struct that is filled. -/
def ReadTimestamp.stored (r : ReadTimestamp) : Stored :=
  match r.time with
  | some time => .timestamp r.date.year r.date.month r.date.day time.hour time.minute time.second
      time.fraction
  | none => .timestamp r.date.year r.date.month r.date.day 0 0 0 0

section

variable {text : Bytes}

theorem charAt_of_lt {i : ℕ} (h : i < text.length) : charAt text i = text[i]? :=
  List.getElem?_append_left h

theorem charAt_length : charAt text text.length = some 0 := by
  unfold charAt
  rw [List.getElem?_append_right le_rfl, Nat.sub_self]
  rfl

/-- A character that is there and is not the NUL is one of the text. -/
theorem charAt_eq_some_iff {i : ℕ} {c : UInt8} :
    charAt text i = some c ↔ text[i]? = some c ∨ i = text.length ∧ c = 0 := by
  rcases lt_trichotomy i text.length with h | rfl | h
  · rw [charAt_of_lt h]
    simp [h.ne]
  · rw [charAt_length, List.getElem?_eq_none le_rfl]
    simp [eq_comm]
  · have hnone : charAt text i = none :=
      List.getElem?_eq_none (by rw [List.length_append, List.length_singleton]; omega)
    rw [hnone, List.getElem?_eq_none h.le]
    simp [h.ne']

theorem charAt_eq_none_iff {i : ℕ} : charAt text i = none ↔ text.length < i := by
  unfold charAt
  rw [List.getElem?_eq_none_iff, List.length_append, List.length_singleton]
  omega

theorem drop_append_zero {i : ℕ} (h : i ≤ text.length) (beyond : Bytes) :
    (text ++ 0 :: beyond).drop i = text.drop i ++ 0 :: beyond :=
  List.drop_append_of_le_length h

theorem head?_append_zero {i : ℕ} {c : UInt8} (h : charAt text i = some c) (beyond : Bytes) :
    ((text ++ 0 :: beyond).drop i).head? = some c := by
  rw [List.head?_drop]
  rcases charAt_eq_some_iff.1 h with h | ⟨rfl, rfl⟩
  · rw [List.getElem?_append_left (List.getElem?_eq_some_iff.1 h).1]
    exact h
  · rw [List.getElem?_append_right le_rfl, Nat.sub_self]
    rfl

theorem takeWhile_isDigit_append_zero (text beyond : Bytes) :
    (text ++ 0 :: beyond).takeWhile isDigit = text.takeWhile isDigit := by
  induction text with
  | nil => rfl
  | cons c text ih => rw [List.cons_append, List.takeWhile_cons, List.takeWhile_cons, ih]

theorem parseFraction_of_ne {rest : Bytes} (h : rest.head? ≠ some (ch '.')) : parseFraction rest = 0 :=
  if_neg h

theorem parseFraction_append_zero (text beyond : Bytes) :
    parseFraction (text ++ 0 :: beyond) = parseFraction text := by
  cases text with
  | nil =>
    rw [parseFraction_of_ne (by rw [List.nil_append, List.head?_cons]; decide),
      parseFraction_of_ne (by decide)]
  | cons c text =>
    unfold parseFraction
    simp only [List.cons_append, List.head?_cons, List.drop_one, List.tail_cons,
      takeWhile_isDigit_append_zero]

theorem readDate_consumed {date : ReadDate} (h : readDate text = some date) : date.consumed = 10 := by
  obtain ⟨ymd, -, rfl⟩ := Option.map_eq_some_iff.1 h
  rfl

theorem parseDatePart_of_read (h0 : 0 ∉ text) (beyond : Bytes) :
    parseDatePart (text ++ 0 :: beyond) =
      (readDate text).map fun date => (date.year, date.month, date.day) := by
  unfold parseDatePart readDate
  rw [cstr_append_zero h0, Option.map_map]
  rfl

theorem parseTimePart_of_read (h0 : 0 ∉ text) {start : ℕ} (hstart : start ≤ text.length)
    {run : Option ReadTime} (h : readTime text start = some run) (beyond : Bytes) :
    parseTimePart ((text ++ 0 :: beyond).drop start) =
      run.map fun time => ((time.hour, time.minute, time.second), time.fraction) := by
  have h0' : 0 ∉ text.drop start := fun hc => h0 (List.mem_of_mem_drop hc)
  unfold readTime at h
  unfold parseTimePart
  rw [drop_append_zero hstart, cstr_append_zero h0']
  cases htime : sscanfThree 2 (ch ':') (text.drop start) with
  | none =>
    rw [htime] at h
    cases h
    rfl
  | some hms =>
    rw [htime] at h
    obtain ⟨c, hc, rfl⟩ := Option.map_eq_some_iff.1 h
    have hle : start + 8 ≤ text.length :=
      not_lt.1 fun hlt => by rw [charAt_eq_none_iff.2 hlt] at hc; cases hc
    rw [List.drop_append_of_le_length (by rw [List.length_drop]; omega), List.drop_drop,
      parseFraction_append_zero]
    rfl

/-- Where only the text is read, what lies behind it does not matter. -/
theorem parseTimestamp_of_read (h0 : 0 ∉ text) {run : Option ReadTimestamp}
    (h : readTimestamp text = some run) (beyond : Bytes) :
    parseTimestamp (text ++ 0 :: beyond) = run.map ReadTimestamp.stored := by
  unfold readTimestamp at h
  unfold parseTimestamp
  rw [parseDatePart_of_read h0]
  cases hdate : readDate text with
  | none =>
    rw [hdate] at h
    cases h
    rfl
  | some date =>
    rw [hdate] at h
    obtain ⟨c, hc, h⟩ := Option.bind_eq_some_iff.1 h
    rw [readDate_consumed hdate] at hc h
    simp only [Option.map_some, Option.bind_eq_bind, Option.bind_some, head?_append_zero hc beyond,
      Option.some.injEq, List.drop_drop]
    split at h
    · next hsep =>
      obtain ⟨time, htime, rfl⟩ := Option.map_eq_some_iff.1 h
      have hlt : 10 < text.length := by
        rcases charAt_eq_some_iff.1 hc with hc | ⟨-, rfl⟩
        · exact (List.getElem?_eq_some_iff.1 hc).1
        · exact absurd hsep (by decide)
      rw [if_pos hsep, parseTimePart_of_read h0 hlt htime]
      cases time <;> rfl
    · next hsep =>
      cases h
      rw [if_neg hsep]
      rfl

end

/-! ## What a text spells -/

/-- Two digits, as the hours and the minutes of an offset are written. -/
def TwoDigits (s : Bytes) : Prop := s.length = 2 ∧ ∀ c ∈ s, isDigit c = true

/-- The UTC offset at the end of a timestamp, or nothing. -/
def IsOffset (s : Bytes) : Prop :=
  s = [] ∨ ∃ blank zone, (blank = [] ∨ blank = lit " ") ∧ s = blank ++ zone ∧
    (zone = lit "Z" ∨ ∃ sign hours colon minutes, isSign sign = true ∧ TwoDigits hours ∧
      (colon = [] ∨ colon = lit ":") ∧ (minutes = [] ∧ colon = [] ∨ TwoDigits minutes) ∧
      zone = sign :: (hours ++ (colon ++ minutes)))

/-- What follows the seconds: a point and the digits of a fraction, or neither, and then an offset. -/
def AfterSeconds (digits s : Bytes) : Prop :=
  ∃ offset, IsOffset offset ∧ (digits = [] ∧ s = offset ∨
    digits ≠ [] ∧ (∀ c ∈ digits, isDigit c = true) ∧ s = ch '.' :: (digits ++ offset))

/-- The first nine digits of a fraction, padded with zeros on the right. -/
def nanoseconds (digits : Bytes) : ℕ :=
  leadingValue 10 0 ((digits ++ List.replicate 9 (ch '0')).take 9)

/-- What stands between a date and a time. -/
def Separates (c : UInt8) : Prop := c = ch ' ' ∨ c = ch 'T'

def ReadDate.Spells (date : ReadDate) (part : Bytes) : Prop :=
  ThreeFields 4 (ch '-') date.year.toInt date.month.toNat date.day.toNat part ∧
    (part.length < 10 → date.consumed = part.length)

def ReadTime.Spells (time : ReadTime) (part digits : Bytes) : Prop :=
  ThreeFields 2 (ch ':') time.hour.toNat time.minute.toNat time.second.toNat part ∧
    (part.length < 8 → time.consumed = part.length) ∧ time.fraction.toNat = nanoseconds digits

/-- A text is a date part, and either nothing else or a time part and what may follow it, and these
spell what was read. -/
def ReadTimestamp.Spells (r : ReadTimestamp) (text : Bytes) : Prop :=
  ∃ part rest, text = part ++ rest ∧ r.date.Spells part ∧
    match r.time with
    | none => rest = []
    | some time => ∃ sep timePart after digits, Separates sep ∧ rest = sep :: (timePart ++ after) ∧
        AfterSeconds digits after ∧ time.Spells timePart digits

/-- A text is read within its NUL, and what is read is what it spells. -/
def TimestampLaw (text : Bytes) : Prop :=
  ∃ run, readTimestamp text = some run ∧
    (∀ beyond, parseTimestamp (text ++ 0 :: beyond) = run.map ReadTimestamp.stored) ∧
    ∀ r ∈ run, r.Spells text

/-- No date is matched at the start of a text, or no time behind the eleventh character if this
separates the two. -/
def NotMatched (text : Bytes) : Prop :=
  sscanfThree 4 (ch '-') text = none ∨
    ∃ sep, Separates sep ∧ text[10]? = some sep ∧ sscanfThree 2 (ch ':') (text.drop 11) = none

/-- A text is a date part of its full width or more. -/
def WideDate (text : Bytes) : Prop :=
  ∃ (year : ℤ) (month day : ℕ), ThreeFields 4 (ch '-') year month day text ∧ 10 ≤ text.length

/-- A text is a date part of just its full width, and a time part of its full width or, when there is
no fraction or one of zeros behind it, of more. -/
def WideTimestamp (text : Bytes) : Prop :=
  ∃ (year : ℤ) (month day hour minute second : ℕ) (part : Bytes) (sep : UInt8)
    (timePart after digits : Bytes),
    text = part ++ sep :: (timePart ++ after) ∧ Separates sep ∧
    ThreeFields 4 (ch '-') year month day part ∧ part.length = 10 ∧
    ThreeFields 2 (ch ':') hour minute second timePart ∧ 8 ≤ timePart.length ∧
    AfterSeconds digits after ∧ (timePart.length = 8 ∨ nanoseconds digits = 0)

section

variable {text part rest : Bytes}

theorem Separates.ne {c : UInt8} (h : Separates c) : c ≠ 0 ∧ isDigit c = false ∧ c ≠ ch ':' := by
  rcases h with rfl | rfl <;> decide

theorem IsOffset.head {s : Bytes} (h : IsOffset s) : ∀ c ∈ s.head?, isDigit c = false ∧ c ≠ ch '.' := by
  rintro c hc
  rcases h with rfl | ⟨blank, zone, rfl | rfl, rfl, hzone⟩
  · cases hc
  · rcases hzone with rfl | ⟨sign, hours, colon, minutes, hsign, -, -, -, rfl⟩
    · cases hc
      decide
    · cases hc
      rcases (Bool.or_eq_true _ _).mp hsign with h | h <;> rw [of_decide_eq_true h] <;> decide
  · cases hc
    decide

theorem AfterSeconds.head {digits s : Bytes} (h : AfterSeconds digits s) :
    ∀ c ∈ s.head?, isDigit c = false := by
  obtain ⟨offset, hoffset, ⟨-, rfl⟩ | ⟨-, -, rfl⟩⟩ := h
  · exact fun c hc => (hoffset.head c hc).1
  · intro c hc
    cases hc
    decide

theorem nanoseconds_nil : nanoseconds [] = 0 := by decide

theorem nanoseconds_eq {digits : Bytes} (h : ∀ c ∈ digits, isDigit c = true) :
    nanoseconds digits = leadingValue 10 0 (digits.take 9) * 10 ^ (9 - (digits.take 9).length) := by
  have hdigits : ∀ c ∈ digits.take 9, (digitValue 10 c).isSome = true :=
    fun c hc => digitValue_of_isDigit (h c (List.mem_of_mem_take hc))
  unfold nanoseconds
  rw [List.take_append, List.take_replicate, leadingValue_append_of_digits hdigits,
    leadingValue_zeros]
  congr 2
  rw [List.length_take]
  omega

theorem nanoseconds_lt (digits : Bytes) : nanoseconds digits < 10 ^ 9 := by
  have hlt := leadingValue_lt (by decide : 0 < 10) 0 ((digits ++ List.replicate 9 (ch '0')).take 9)
  rw [Nat.zero_add, Nat.one_mul] at hlt
  exact hlt.trans_le (Nat.pow_le_pow_right (by decide) (List.length_take_le _ _))

theorem parseFraction_of_after {digits s : Bytes} (h : AfterSeconds digits s) :
    (parseFraction s).toNat = nanoseconds digits := by
  obtain ⟨offset, hoffset, ⟨rfl, rfl⟩ | ⟨-, hdigits, rfl⟩⟩ := h
  · rw [parseFraction_of_ne fun h => (hoffset.head _ h).2 rfl, nanoseconds_nil]
    rfl
  · have hlt := nanoseconds_lt digits
    rw [nanoseconds_eq hdigits] at hlt ⊢
    have htake := (takeWhile_append_stop hdigits fun c hc => (hoffset.head c hc).1).1
    unfold parseFraction
    simp only [List.head?_cons, if_true, List.drop_one, List.tail_cons, htake]
    exact UInt32.toNat_ofNat_of_lt' (hlt.trans (by decide))

theorem toNat_stored {v : ℤ} {n : ℕ} (hv : v = n) (hn : n < 2 ^ 16) :
    (UInt16.ofNat (v % 2 ^ 16).toNat).toNat = n := by
  subst hv
  rw [Int.emod_eq_of_lt (by omega) (by omega), Int.toNat_natCast]
  exact UInt16.toNat_ofNat_of_lt' hn

/-- What follows a date part that is read right begins with no digit. -/
theorem readDate_of_fields {year : ℤ} {month day : ℕ} (rest : Bytes)
    (h : ThreeFields 4 (ch '-') year month day part) (hrest : ∀ c ∈ rest.head?, isDigit c = false) :
    ∃ date, readDate (part ++ rest) = some date ∧ date.year.toInt = year ∧
      date.month.toNat = month ∧ date.day.toNat = day ∧ date.consumed = 10 := by
  obtain ⟨hyear, hmonth, hday⟩ := h.natAbs_lt
  have hread : ∃ date, readDate (part ++ rest) = some date := by
    rw [readDate, sscanfThree_of_fields h (by decide) hrest]
    exact ⟨_, rfl⟩
  obtain ⟨date, hdate⟩ := hread
  refine ⟨date, hdate, ?_⟩
  rw [readDate, sscanfThree_of_fields h (by decide) hrest] at hdate
  cases hdate
  exact ⟨Int16.toInt_ofInt_of_le (by omega) (by omega), toNat_stored rfl (by omega),
    toNat_stored rfl (by omega), rfl⟩

theorem readTime_of_fields {start hour minute second : ℕ} {after : Bytes}
    (h : ThreeFields 2 (ch ':') hour minute second part) (htext : text.drop start = part ++ after)
    (hafter : ∀ c ∈ after.head?, isDigit c = false) (hwide : start + 8 ≤ text.length) :
    ∃ time, readTime text start = some (some time) ∧ time.hour.toNat = hour ∧
      time.minute.toNat = minute ∧ time.second.toNat = second ∧ time.consumed = 8 ∧
      time.fraction = parseFraction (text.drop (start + 8)) := by
  obtain ⟨hhour, hminute, hsecond⟩ := h.natAbs_lt
  obtain ⟨c, hc⟩ : ∃ c, charAt text (start + 8) = some c :=
    Option.ne_none_iff_exists'.1 fun hnone => by rw [charAt_eq_none_iff] at hnone; omega
  have hread : ∃ time, readTime text start = some (some time) := by
    rw [readTime, htext, sscanfThree_of_fields h (by decide) hafter, hc]
    exact ⟨_, rfl⟩
  obtain ⟨time, htime⟩ := hread
  refine ⟨time, htime, ?_⟩
  rw [readTime, htext, sscanfThree_of_fields h (by decide) hafter, hc] at htime
  cases htime
  exact ⟨toNat_stored rfl (by omega), toNat_stored rfl (by omega), toNat_stored rfl (by omega), rfl, rfl⟩

theorem colon_notMem_date {year month day : ℤ} (h : ThreeFields 4 (ch '-') year month day part) :
    ch ':' ∉ part := h.notMem (by decide)

theorem mem_of_sscanfThree {s : Bytes} {v : ℤ × ℤ × ℤ} (h : sscanfThree 2 (ch ':') s = some v) :
    ch ':' ∈ s := by
  obtain ⟨first, more, -, rfl⟩ := exists_first_field (by decide) h
  simp

/-- Within a date part no time begins, whatever separates it from what follows. -/
theorem sscanfThree_within_date {year month day : ℤ} {sep : UInt8} {more : Bytes} {i : ℕ}
    (h : ThreeFields 4 (ch '-') year month day part) (hsep : Separates sep) (hi : i < part.length) :
    sscanfThree 2 (ch ':') ((part ++ sep :: more).drop i) = none := by
  have hcolon := colon_notMem_date h
  obtain ⟨front, d, rfl, hd⟩ := h.getLast
  rw [List.length_append, List.length_singleton] at hi
  have hsplit : (front ++ [d] ++ sep :: more).drop i = (front.drop i ++ [d, sep]) ++ more := by
    rw [List.append_assoc, List.drop_append_of_le_length (by omega)]
    simp
  rw [hsplit]
  by_contra hsome
  obtain ⟨⟨a, b, c⟩, hsome⟩ := Option.ne_none_iff_exists'.1 hsome
  obtain ⟨first, rest, hfield, htext⟩ := exists_first_field (by decide) hsome
  have hnot : ch ':' ∉ front.drop i ++ [d, sep] := by
    intro hmem
    rcases List.mem_append.1 hmem with hmem | hmem
    · exact hcolon (List.mem_append_left _ (List.mem_of_mem_drop hmem))
    · rcases List.mem_cons.1 hmem with rfl | hmem
      · exact hcolon (by simp)
      · exact hsep.ne.2.2 (List.mem_singleton.1 hmem).symm
  -- the first field would run over the last digit of the date part and what separates it
  rcases List.append_eq_append_iff.1 htext with ⟨a', rfl, -⟩ | ⟨c', hc', hrest⟩
  · have hpair := (List.pairwise_append.1 hfield.pairwise).1
    have hdigit := (List.pairwise_append.1 hpair).2.1
    rw [List.pairwise_pair] at hdigit
    exact absurd (hdigit hd) (by rw [hsep.ne.2.1]; decide)
  · cases c' with
    | nil =>
      rw [List.append_nil] at hc'
      rw [← hc'] at hfield
      have hdigit := (List.pairwise_append.1 hfield.pairwise).2.1
      rw [List.pairwise_pair] at hdigit
      exact absurd (hdigit hd) (by rw [hsep.ne.2.1]; decide)
    | cons x c' =>
      cases hrest
      exact hnot (by rw [hc']; simp)

/-- No fraction is found within a time part. -/
theorem parseFraction_within_time {hour minute second : ℤ}
    (h : ThreeFields 2 (ch ':') hour minute second part) (hwide : 8 < part.length) (after : Bytes) :
    parseFraction ((part ++ after).drop 8) = 0 := by
  refine parseFraction_of_ne fun hpoint => ?_
  rw [List.head?_drop, List.getElem?_append_left hwide] at hpoint
  have hnot : ch '.' ∉ part := h.notMem (by decide)
  exact hnot (List.mem_of_getElem? hpoint)

theorem law_of_read (h0 : 0 ∉ text) {run : Option ReadTimestamp}
    (h : readTimestamp text = some run) (hspells : ∀ r ∈ run, r.Spells text) : TimestampLaw text :=
  ⟨run, h, parseTimestamp_of_read h0 h, hspells⟩

theorem readTimestamp_of_separates {date : ReadDate} {c : UInt8} (hread : readDate text = some date)
    (hc : charAt text 10 = some c) (hsep : Separates c) :
    readTimestamp text = (readTime text 11).map (Option.map fun time => ⟨date, some time⟩) := by
  unfold readTimestamp
  rw [hread]
  simp only [readDate_consumed hread, hc, Option.bind_some]
  exact if_pos hsep

theorem readTimestamp_of_not_separates {date : ReadDate} {c : UInt8} (hread : readDate text = some date)
    (hc : charAt text 10 = some c) (hsep : ¬Separates c) :
    readTimestamp text = some (some ⟨date, none⟩) := by
  unfold readTimestamp
  rw [hread]
  simp only [readDate_consumed hread, hc, Option.bind_some]
  exact if_neg hsep

theorem readTimestamp_of_notMatched (h : NotMatched text) : readTimestamp text = some none := by
  cases hread : readDate text with
  | none => rw [readTimestamp, hread]
  | some date =>
    rcases h with hdate | ⟨sep, hsep, hat, htime⟩
    · rw [readDate, hdate] at hread
      cases hread
    · have hnone : readTime text 11 = some none := by rw [readTime, htime]
      rw [readTimestamp_of_separates hread (charAt_eq_some_iff.2 (.inl hat)) hsep, hnone]
      rfl

theorem law_of_notMatched (h0 : 0 ∉ text) (h : NotMatched text) : TimestampLaw text :=
  law_of_read h0 (readTimestamp_of_notMatched h) (by simp)

theorem exists_charAt {i : ℕ} (h : i ≤ text.length) : ∃ c, charAt text i = some c :=
  Option.ne_none_iff_exists'.1 fun hnone => by rw [charAt_eq_none_iff] at hnone; omega

theorem law_of_wideDate (h0 : 0 ∉ text) (h : WideDate text) : TimestampLaw text := by
  obtain ⟨year, month, day, hfields, hwide⟩ := h
  obtain ⟨date, hread, hyear, hmonth, hday, hconsumed⟩ :=
    readDate_of_fields [] hfields (by simp)
  rw [List.append_nil] at hread
  obtain ⟨c, hc⟩ := exists_charAt hwide
  by_cases hsep : Separates c
  · rcases charAt_eq_some_iff.1 hc with hat | ⟨-, rfl⟩
    · refine law_of_notMatched h0 (.inr ⟨c, hsep, hat, ?_⟩)
      by_contra hsome
      obtain ⟨v, hsome⟩ := Option.ne_none_iff_exists'.1 hsome
      exact colon_notMem_date hfields (List.mem_of_mem_drop (mem_of_sscanfThree hsome))
    · exact absurd rfl hsep.ne.1
  · refine law_of_read h0 (readTimestamp_of_not_separates hread hc hsep) ?_
    rintro r ⟨⟩
    refine ⟨text, [], (List.append_nil _).symm, ⟨?_, fun hlt => absurd hlt (by omega)⟩, rfl⟩
    rw [hyear, hmonth, hday]
    exact hfields

/-- Parts of their full width are read, and a fraction with them if it stands right behind them. -/
theorem readTimestamp_of_fields {year : ℤ} {month day hour minute second : ℕ} {sep : UInt8}
    {timePart after digits : Bytes} (hdate : ThreeFields 4 (ch '-') year month day part)
    (hten : part.length = 10) (hsep : Separates sep)
    (htime : ThreeFields 2 (ch ':') hour minute second timePart) (height : 8 ≤ timePart.length)
    (hafter : AfterSeconds digits after) (hfraction : timePart.length = 8 ∨ nanoseconds digits = 0) :
    ∃ date time, readTimestamp (part ++ sep :: (timePart ++ after)) = some (some ⟨date, some time⟩) ∧
      (date.year.toInt = year ∧ date.month.toNat = month ∧ date.day.toNat = day) ∧
      (time.hour.toNat = hour ∧ time.minute.toNat = minute ∧ time.second.toNat = second) ∧
      time.fraction.toNat = nanoseconds digits := by
  obtain ⟨date, hread, hyear, hmonth, hday, -⟩ :=
    readDate_of_fields (sep :: (timePart ++ after)) hdate fun c hc => by
      cases hc
      exact hsep.ne.2.1
  have hdrop : (part ++ sep :: (timePart ++ after)).drop 10 = sep :: (timePart ++ after) := by
    rw [← hten, List.drop_left]
  have hrest : (part ++ sep :: (timePart ++ after)).drop 11 = timePart ++ after := by
    rw [← List.tail_drop, hdrop, List.tail_cons]
  have hlength : 11 + 8 ≤ (part ++ sep :: (timePart ++ after)).length := by
    simp only [List.length_append, List.length_cons]
    omega
  have hchar : charAt (part ++ sep :: (timePart ++ after)) 10 = some sep := by
    refine charAt_eq_some_iff.2 (.inl ?_)
    rw [← List.head?_drop, hdrop, List.head?_cons]
  obtain ⟨time, htimeread, hhour, hminute, hsecond, -, hnanos⟩ :=
    readTime_of_fields htime hrest hafter.head hlength
  refine ⟨date, time, ?_, ⟨hyear, hmonth, hday⟩, ⟨hhour, hminute, hsecond⟩, ?_⟩
  · rw [readTimestamp_of_separates hread hchar hsep, htimeread]
    rfl
  · rw [hnanos, ← List.drop_drop, hrest]
    rcases height.eq_or_lt' with heq | hlt
    · rw [← heq, List.drop_left, parseFraction_of_after hafter]
    · rw [parseFraction_within_time htime hlt, hfraction.resolve_left hlt.ne']
      rfl

theorem law_of_wideTimestamp (h0 : 0 ∉ text) (h : WideTimestamp text) : TimestampLaw text := by
  obtain ⟨year, month, day, hour, minute, second, part, sep, timePart, after, digits, rfl, hsep,
    hdate, hten, htime, height, hafter, hfraction⟩ := h
  obtain ⟨date, time, hread, ⟨hyear, hmonth, hday⟩, ⟨hhour, hminute, hsecond⟩, hnanos⟩ :=
    readTimestamp_of_fields hdate hten hsep htime height hafter hfraction
  refine law_of_read h0 hread ?_
  rintro r ⟨⟩
  refine ⟨part, _, rfl, ⟨?_, fun hlt => absurd hlt (by omega)⟩, sep, timePart, after, digits, hsep, rfl,
    hafter, ?_, fun hlt => absurd hlt (by omega), hnanos⟩
  · rw [hyear, hmonth, hday]
    exact hdate
  · rw [hhour, hminute, hsecond]
    exact htime

theorem sscanfThree_of_readTime {start : ℕ} (h : readTime text start = some none) :
    sscanfThree 2 (ch ':') (text.drop start) = none := by
  unfold readTime at h
  split at h
  · assumption
  · obtain ⟨c, -, hc⟩ := Option.map_eq_some_iff.1 h
    cases hc

theorem readTime_eq_some {start : ℕ} {time : ReadTime} (h : readTime text start = some (some time)) :
    time.consumed = 8 ∧ time.fraction = parseFraction (text.drop (start + 8)) ∧
      sscanfThree 2 (ch ':') (text.drop start) ≠ none := by
  unfold readTime at h
  split at h
  · cases h
  · next hour minute second hread =>
    obtain ⟨c, -, hc⟩ := Option.map_eq_some_iff.1 h
    cases hc
    exact ⟨rfl, rfl, by rw [hread]; simp⟩

theorem wideDate_of_spells {date : ReadDate} (hread : readDate text = some date)
    (h : ReadTimestamp.Spells ⟨date, none⟩ text) : WideDate text := by
  obtain ⟨part, rest, rfl, ⟨hfields, hwidth⟩, rfl⟩ := h
  rw [List.append_nil]
  exact ⟨_, _, _, hfields, not_lt.1 fun hlt => hlt.ne ((hwidth hlt).symm.trans (readDate_consumed hread))⟩

/-- A date part with something read behind it ends right where this is read from. -/
theorem length_date_of_read {date : ReadDate} {sep : UInt8} {more : Bytes}
    (hread : readDate (part ++ sep :: more) = some date) (hspells : date.Spells part)
    (hsep : Separates sep) (hat : ∃ c, Separates c ∧ (part ++ sep :: more)[10]? = some c)
    (htime : sscanfThree 2 (ch ':') ((part ++ sep :: more).drop 11) ≠ none) : part.length = 10 := by
  obtain ⟨hfields, hwidth⟩ := hspells
  have hten := readDate_consumed hread
  have hle : 10 ≤ part.length := not_lt.1 fun hlt => by have := hwidth hlt; omega
  by_contra hne
  by_cases hlong : 11 < part.length
  · exact htime (sscanfThree_within_date hfields hsep hlong)
  · -- the last digit of the date part would be what separates it
    obtain ⟨front, d, rfl, hd⟩ := hfields.getLast
    obtain ⟨c, hc, hat⟩ := hat
    rw [List.length_append, List.length_singleton] at hle hne hlong
    have hfront : front.length = 10 := by omega
    rw [List.append_assoc, ← hfront, List.getElem?_append_right le_rfl, Nat.sub_self] at hat
    cases hat
    rw [hc.ne.2.1] at hd
    cases hd

theorem wideTimestamp_of_spells {date : ReadDate} {time : ReadTime}
    (hread : readDate text = some date) (htime : readTime text 11 = some (some time))
    (hat : ∃ c, Separates c ∧ text[10]? = some c)
    (h : ReadTimestamp.Spells ⟨date, some time⟩ text) : WideTimestamp text := by
  obtain ⟨part, rest, rfl, hdate, sep, timePart, after, digits, hsep, rfl, hafter, hfields, hwidth,
    hnanos⟩ := h
  obtain ⟨hconsumed, hfraction, hmatched⟩ := readTime_eq_some htime
  have hten := length_date_of_read hread hdate hsep hat hmatched
  have hle : 8 ≤ timePart.length := not_lt.1 fun hlt => by have := hwidth hlt; omega
  have hrest : (part ++ sep :: (timePart ++ after)).drop 11 = timePart ++ after := by
    rw [← List.tail_drop, ← hten, List.drop_left, List.tail_cons]
  refine ⟨_, _, _, _, _, _, part, sep, timePart, after, digits, rfl, hsep, hdate.1, hten, hfields, hle,
    hafter, ?_⟩
  rcases hle.eq_or_lt' with heq | hlt
  · exact .inl heq
  · rw [← List.drop_drop, hrest, parseFraction_within_time hfields hlt] at hfraction
    rw [hfraction] at hnanos
    exact .inr hnanos.symm

/-- A timestamp is read right just where nothing is matched, or its parts have their full width and
nothing but a fraction and an offset follows them. -/
theorem timestampLaw_iff (h0 : 0 ∉ text) :
    TimestampLaw text ↔ NotMatched text ∨ WideDate text ∨ WideTimestamp text := by
  constructor
  · rintro ⟨run, hread, -, hspells⟩
    cases hdate : readDate text with
    | none => exact .inl (.inl (Option.map_eq_none_iff.1 hdate))
    | some date =>
      cases hchar : charAt text 10 with
      | none =>
        rw [readTimestamp, hdate] at hread
        simp only [readDate_consumed hdate, hchar, Option.bind_none] at hread
        cases hread
      | some c =>
        by_cases hsep : Separates c
        · have hat := (charAt_eq_some_iff.1 hchar).resolve_right fun h => hsep.ne.1 h.2
          rw [readTimestamp_of_separates hdate hchar hsep] at hread
          obtain ⟨time, htime, rfl⟩ := Option.map_eq_some_iff.1 hread
          cases time with
          | none => exact .inl (.inr ⟨c, hsep, hat, sscanfThree_of_readTime htime⟩)
          | some time =>
            exact .inr (.inr (wideTimestamp_of_spells hdate htime ⟨c, hsep, hat⟩ (hspells _ rfl)))
        · rw [readTimestamp_of_not_separates hdate hchar hsep] at hread
          cases hread
          exact .inr (.inl (wideDate_of_spells hdate (hspells _ rfl)))
  · rintro (h | h | h)
    · exact law_of_notMatched h0 h
    · exact law_of_wideDate h0 h
    · exact law_of_wideTimestamp h0 h

end

/-- What the engine renders with an offset is read right. -/
theorem timestampLaw_iff_offset :
    TimestampLaw (lit "2024-01-05 12:34:56.5 +02:00") ↔
      NotMatched (lit "2024-01-05 12:34:56.5 +02:00") ∨ WideDate (lit "2024-01-05 12:34:56.5 +02:00") ∨
        WideTimestamp (lit "2024-01-05 12:34:56.5 +02:00") :=
  timestampLaw_iff (by decide)

/-- Behind a date written without its zeros the text is over before the place that is looked at. -/
theorem not_timestampLaw_short : ¬TimestampLaw (lit "2024-1-5") := by
  rintro ⟨run, hread, -⟩
  have hnone : readTimestamp (lit "2024-1-5") = none := by rfl
  rw [hnone] at hread
  cases hread

end FrostlakeOdbc
