import FrostlakeOdbc.Scanner

/-!
# Where a segment ends

How far the scanner goes is settled by the segment and the character after it. So a segment stays one
segment whatever follows it, unless the two join: a name and a character of a name, two quotes, or the
two characters that open a comment (`width_next`).
-/

namespace FrostlakeOdbc

open CString Scan

theorem width_of_some {s : Bytes} {n : ℕ} (h : flSqlSkip s = some n) : width flSqlSkip s = n := by
  have hpos := flSqlSkip_pos h
  simp only [width, h]
  omega

theorem width_of_none {s : Bytes} (h : flSqlSkip s = none) : width flSqlSkip s = 1 := by
  simp only [width, h]

/-! ## What opens at a character -/

section

variable {c : UInt8} (s : Bytes)

theorem flSqlSkip_name (h : isNameStart c = true) :
    flSqlSkip (c :: s) = some (1 + (s.takeWhile isNameChar).length) := by
  rw [flSqlSkip, if_pos h]

theorem flSqlSkip_string : flSqlSkip (ch '\'' :: s) = some (1 + stringLength s) := by
  rw [flSqlSkip, if_neg (by decide), if_pos rfl]

theorem flSqlSkip_quoted : flSqlSkip (ch '"' :: s) = some (1 + quotedLength s) := by
  rw [flSqlSkip, if_neg (by decide), if_neg (by decide), if_pos rfl]

end

/-- A character that opens no construct, whatever follows it. -/
def isPlain (c : UInt8) : Bool :=
  !(isNameStart c || c = ch '\'' || c = ch '"' || c = ch '-' || c = ch '/' || c = ch '$')

theorem flSqlSkip_plain {c : UInt8} (h : isPlain c = true) (s : Bytes) : flSqlSkip (c :: s) = none := by
  simp only [isPlain, Bool.not_eq_true', Bool.or_eq_false_iff, decide_eq_false_iff_not] at h
  obtain ⟨⟨⟨⟨⟨hname, hquote⟩, hdouble⟩, hminus⟩, hslash⟩, hdollar⟩ := h
  rw [flSqlSkip, if_neg (by rw [hname]; decide), if_neg hquote, if_neg hdouble,
    if_neg fun h => h.elim (fun h => hminus h.1) fun h => hslash h.1, if_neg fun h => hslash h.1,
    if_neg fun h => hdollar h.1]

/-- What the scanner steps over is no plain character. -/
theorem take_ne_of_isPlain {c : UInt8} (hc : isPlain c = true) {s : Bytes} {k : ℕ}
    (h : flSqlSkip s = some k) : s.take k ≠ [c] := by
  intro htake
  cases s with
  | nil => cases h
  | cons d rest =>
    obtain ⟨k, rfl⟩ := Nat.exists_eq_succ_of_ne_zero (flSqlSkip_pos h).ne'
    rw [List.take_succ_cons] at htake
    rw [(List.cons.inj htake).1, flSqlSkip_plain hc] at h
    cases h

theorem segments_some {s : Bytes} {k : ℕ} (h : flSqlSkip s = some k) :
    segments flSqlSkip s = s.take k :: segments flSqlSkip (s.drop k) := by
  have hs : s ≠ [] := by
    rintro rfl
    cases h
  rw [segments_of_ne_nil flSqlSkip hs, width_of_some h]

theorem segments_none {c : UInt8} {rest : Bytes} (h : flSqlSkip (c :: rest) = none) :
    segments flSqlSkip (c :: rest) = [c] :: segments flSqlSkip rest := by
  rw [segments_of_ne_nil flSqlSkip (List.cons_ne_nil c rest), width_of_none h]
  rfl

/-! ## Names -/

theorem isNameChar_of_isNameStart {c : UInt8} (h : isNameStart c = true) : isNameChar c = true := by
  revert h
  apply forall_byte (P := fun c => isNameStart c = true → isNameChar c = true)
  decide +kernel

theorem length_takeWhile_append {p : UInt8 → Bool} {w r : Bytes} :
    ((w ++ r).takeWhile p).length = w.length ↔
      (∀ c ∈ w, p c = true) ∧ ∀ c ∈ r.head?, p c = false := by
  rw [List.takeWhile_append]
  by_cases hall : (w.takeWhile p).length = w.length
  · have hw : w.takeWhile p = w := (List.takeWhile_prefix p).eq_of_length hall
    rw [if_pos hall, List.length_append, Nat.add_eq_left, List.length_eq_zero_iff]
    refine ⟨fun h => ⟨List.takeWhile_eq_self_iff.1 hw, ?_⟩, fun h => ?_⟩
    · cases r with
      | nil => simp
      | cons c r =>
        intro d hd
        cases hd
        by_contra hp
        rw [List.takeWhile_cons, if_pos (by simpa using hp)] at h
        cases h
    · cases r with
      | nil => rfl
      | cons c r => rw [List.takeWhile_cons, h.2 c rfl, if_neg (by decide)]
  · rw [if_neg hall]
    refine ⟨fun h => absurd h hall, fun h => absurd ?_ hall⟩
    rw [List.takeWhile_eq_self_iff.2 h.1]

/-! ## Quotes -/

theorem getLast?_of_suffix {w : Bytes} {c : UInt8} (h : w.getLast? = some c) (front : Bytes) :
    (front ++ w).getLast? = some c := by
  rw [List.getLast?_append, h]
  rfl

theorem stringLength_pos {s : Bytes} (h : s ≠ []) : 0 < stringLength s := by
  match s with
  | [] => exact absurd rfl h
  | [_] => exact Nat.one_pos
  | c :: d :: rest =>
    rw [stringLength]
    split_ifs <;> omega

/-- A string that ends before something else ends with its quote, and no quote follows. Then it ends
there whatever follows, if no quote does. -/
theorem stringLength_next : ∀ {w : Bytes} {c : UInt8} {t : Bytes},
    stringLength (w ++ c :: t) = w.length → w.getLast? = some (ch '\'') ∧ c ≠ ch '\'' ∧
      ∀ s : Bytes, (∀ d ∈ s.head?, d ≠ ch '\'') → stringLength (w ++ s) = w.length
  | [], c, t, h => absurd h (stringLength_pos (List.cons_ne_nil c t)).ne'
  | [x], c, t, h => by
      have hpos := stringLength_pos (List.cons_ne_nil c t)
      simp only [List.cons_append, List.nil_append, stringLength, List.length_singleton] at h
      split_ifs at h with hback hquote hnext
      · omega
      · refine ⟨by rw [hquote]; rfl, hnext, fun s hs => ?_⟩
        cases s with
        | nil => rfl
        | cons d s =>
          rw [List.cons_append, List.nil_append, stringLength, if_neg hback, if_pos hquote,
            if_pos (hs d rfl)]
          rfl
      · omega
      · omega
  | x :: y :: w, c, t, h => by
      simp only [List.cons_append, stringLength, List.length_cons] at h
      split_ifs at h with hback hquote hnext
      · obtain ⟨hlast, hc, hs⟩ := stringLength_next (w := w) (c := c) (t := t) (by omega)
        refine ⟨getLast?_of_suffix hlast [x, y], hc, fun s hd => ?_⟩
        rw [List.cons_append, List.cons_append, stringLength, if_pos hback, hs s hd, Nat.add_comm]
        rfl
      · omega
      · obtain ⟨hlast, hc, hs⟩ := stringLength_next (w := w) (c := c) (t := t) (by omega)
        refine ⟨getLast?_of_suffix hlast [x, y], hc, fun s hd => ?_⟩
        rw [List.cons_append, List.cons_append, stringLength, if_neg hback, if_pos hquote,
          if_neg hnext, hs s hd, Nat.add_comm]
        rfl
      · obtain ⟨hlast, hc, hs⟩ := stringLength_next (w := y :: w) (c := c) (t := t) (by
          simp only [List.cons_append, List.length_cons]
          omega)
        refine ⟨getLast?_of_suffix hlast [x], hc, fun s hd => ?_⟩
        rw [List.cons_append, List.cons_append, stringLength, if_neg hback, if_neg hquote]
        rw [← List.cons_append, hs s hd, Nat.add_comm]
        rfl

theorem quotedLength_pos {s : Bytes} (h : s ≠ []) : 0 < quotedLength s := by
  match s with
  | [] => exact absurd rfl h
  | [_] => exact Nat.one_pos
  | c :: d :: rest =>
    rw [quotedLength]
    split_ifs <;> omega

/-- So does a quoted identifier. -/
theorem quotedLength_next : ∀ {w : Bytes} {c : UInt8} {t : Bytes},
    quotedLength (w ++ c :: t) = w.length → w.getLast? = some (ch '"') ∧ c ≠ ch '"' ∧
      ∀ s : Bytes, (∀ d ∈ s.head?, d ≠ ch '"') → quotedLength (w ++ s) = w.length
  | [], c, t, h => absurd h (quotedLength_pos (List.cons_ne_nil c t)).ne'
  | [x], c, t, h => by
      have hpos := quotedLength_pos (List.cons_ne_nil c t)
      simp only [List.cons_append, List.nil_append, quotedLength, List.length_singleton] at h
      split_ifs at h with hquote hnext
      · refine ⟨by rw [hquote]; rfl, hnext, fun s hs => ?_⟩
        cases s with
        | nil => rfl
        | cons d s =>
          rw [List.cons_append, List.nil_append, quotedLength, if_pos hquote, if_pos (hs d rfl)]
          rfl
      · omega
      · omega
  | x :: y :: w, c, t, h => by
      simp only [List.cons_append, quotedLength, List.length_cons] at h
      split_ifs at h with hquote hnext
      · omega
      · obtain ⟨hlast, hc, hs⟩ := quotedLength_next (w := w) (c := c) (t := t) (by omega)
        refine ⟨getLast?_of_suffix hlast [x, y], hc, fun s hd => ?_⟩
        rw [List.cons_append, List.cons_append, quotedLength, if_pos hquote, if_neg hnext, hs s hd,
          Nat.add_comm]
        rfl
      · obtain ⟨hlast, hc, hs⟩ := quotedLength_next (w := y :: w) (c := c) (t := t) (by
          simp only [List.cons_append, List.length_cons]
          omega)
        refine ⟨getLast?_of_suffix hlast [x], hc, fun s hd => ?_⟩
        rw [List.cons_append, List.cons_append, quotedLength, if_neg hquote]
        rw [← List.cons_append, hs s hd, Nat.add_comm]
        rfl

/-! ## Comments and bodies -/

theorem lineCommentLength_next {w : Bytes} {c : UInt8} {t : Bytes}
    (h : lineCommentLength (w ++ c :: t) = w.length) (s : Bytes) :
    lineCommentLength (w ++ s) = w.length := by
  have hlen : (w ++ c :: t).length = w.length + (t.length + 1) := by simp
  have hle := (List.takeWhile_prefix (l := w) fun c => c ≠ ch '\r' && c ≠ ch '\n').length_le
  unfold lineCommentLength at h ⊢
  simp only [List.takeWhile_append] at h ⊢
  by_cases hall : (w.takeWhile fun c => c ≠ ch '\r' && c ≠ ch '\n').length = w.length
  · -- the line goes on behind `w`
    rw [if_pos hall, List.length_append] at h
    split_ifs at h <;> omega
  · rw [if_neg hall] at h ⊢
    have hlt : (w.takeWhile fun c => c ≠ ch '\r' && c ≠ ch '\n').length < w.length := by omega
    rw [if_pos (by omega)] at h
    rw [if_pos (by rw [List.length_append]; omega)]
    exact h

theorem closedLength_next {close w : Bytes} {c : UInt8} {t : Bytes} (hclose : close.length = 2)
    (h : closedLength close (w ++ c :: t) = w.length) (s : Bytes) :
    closedLength close (w ++ s) = w.length := by
  unfold closedLength at h ⊢
  cases hfind : find close (w ++ c :: t) with
  | none =>
    rw [hfind] at h
    simp at h
  | some n =>
    rw [hfind] at h
    have hn : n + 2 = w.length := h
    have hw : find close w = some n := find_of_append hfind (by omega)
    rw [find_append hw s]
    exact hn

/-! ## Where a segment ends -/

/-- Two characters that are one construct, or part of one, where they stand side by side. -/
def joins (c d : UInt8) : Bool :=
  isNameChar c && isNameChar d || c = ch '\'' && d = ch '\'' || c = ch '"' && d = ch '"' ||
    c = ch '-' && d = ch '-' || c = ch '/' && (d = ch '/' || d = ch '*')

theorem flSqlSkip_pair {x : UInt8} (hname : isNameStart x = false) (hquote : x ≠ ch '\'')
    (hdouble : x ≠ ch '"') (y : UInt8) (s : Bytes) :
    flSqlSkip (x :: y :: s) =
      if (x = ch '-' ∧ y = ch '-') ∨ (x = ch '/' ∧ y = ch '/') then some (2 + lineCommentLength s)
      else if x = ch '/' ∧ y = ch '*' then some (2 + closedLength (lit "*/") s)
      else if x = ch '$' ∧ y = ch '$' then some (2 + closedLength (lit "$$") s)
      else none := by
  rw [flSqlSkip, if_neg (by rw [hname]; decide), if_neg hquote, if_neg hdouble]
  simp only [List.head?_cons, Option.some.injEq, List.drop_succ_cons, List.drop_zero]

theorem flSqlSkip_single {x : UInt8} (hname : isNameStart x = false) (hquote : x ≠ ch '\'')
    (hdouble : x ≠ ch '"') : flSqlSkip [x] = none := by
  rw [flSqlSkip, if_neg (by rw [hname]; decide), if_neg hquote, if_neg hdouble]
  simp

/-- A name ends where no character of a name follows. -/
theorem width_name {x : UInt8} {w s : Bytes} (hname : isNameStart x = true)
    (hw : ∀ c ∈ w, isNameChar c = true) (hs : ∀ d ∈ s.head?, isNameChar d = false) :
    width flSqlSkip (x :: (w ++ s)) = w.length + 1 := by
  rw [width_of_some (flSqlSkip_name _ hname), length_takeWhile_append.2 ⟨hw, hs⟩, Nat.add_comm]

theorem isNameChar_getLast {x : UInt8} {w : Bytes} (hname : isNameStart x = true)
    (hw : ∀ c ∈ w, isNameChar c = true) (ha : x :: w ≠ []) :
    isNameChar ((x :: w).getLast ha) = true := by
  rcases List.mem_cons.1 (List.getLast_mem ha) with h | h
  · rw [h]
    exact isNameChar_of_isNameStart hname
  · exact hw _ h

/-- What follows a quote without joining it is no quote. -/
theorem head_ne_of_joins {a s : Bytes} {c q : UInt8} {ha : a ≠ []} (hlast : a.getLast? = some q)
    (hq : joins q q = true) (hc : c ≠ q)
    (hs : ∀ d ∈ s.head?, d = c ∨ joins (a.getLast ha) d = false) : ∀ d ∈ s.head?, d ≠ q := by
  intro d hd
  have hlast : a.getLast ha = q := List.getLast_of_getLast?_eq_some hlast
  rcases hs d hd with rfl | hjoin
  · exact hc
  · intro hdq
    rw [hlast, hdq, hq] at hjoin
    cases hjoin

/-- A character that starts neither a name nor a quoted construct is a segment until the character
after it opens something with it. -/
theorem flSqlSkip_next {x c d : UInt8} {t s : Bytes} (hname : isNameStart x = false)
    (hquote : x ≠ ch '\'') (hdouble : x ≠ ch '"') (h : flSqlSkip (x :: c :: t) = none)
    (hd : d = c ∨ joins x d = false) : flSqlSkip (x :: d :: s) = none := by
  rw [flSqlSkip_pair hname hquote hdouble] at h ⊢
  rcases hd with rfl | hjoin
  · split_ifs at h ⊢
    rfl
  · simp only [joins, Bool.or_eq_false_iff, Bool.and_eq_false_iff, decide_eq_false_iff_not] at hjoin
    obtain ⟨⟨⟨⟨hchars, -⟩, -⟩, hminus⟩, hslash⟩ := hjoin
    rw [if_neg, if_neg, if_neg]
    · rintro ⟨rfl, rfl⟩
      revert hchars
      decide
    · rintro ⟨rfl, rfl⟩
      exact hslash.elim (fun h => h rfl) fun h => h.2 rfl
    · rintro (⟨rfl, rfl⟩ | ⟨rfl, rfl⟩)
      · exact hminus.elim (fun h => h rfl) fun h => h rfl
      · exact hslash.elim (fun h => h rfl) fun h => h.1 rfl

/-- A segment that ends before `c` ends there before any text that starts with `c`, and before any
text its last character does not join. -/
theorem width_next {a : Bytes} (ha : a ≠ []) {c : UInt8} {t s : Bytes}
    (h : width flSqlSkip (a ++ c :: t) = a.length)
    (hs : ∀ d ∈ s.head?, d = c ∨ joins (a.getLast ha) d = false) :
    width flSqlSkip (a ++ s) = a.length := by
  obtain ⟨x, w, rfl⟩ := List.exists_cons_of_ne_nil ha
  rw [List.cons_append, List.length_cons] at h ⊢
  by_cases hname : isNameStart x = true
  · rw [width_of_some (flSqlSkip_name _ hname), Nat.add_comm, Nat.add_right_cancel_iff] at h
    obtain ⟨hw, hc⟩ := length_takeWhile_append.1 h
    refine width_name hname hw fun d hd => ?_
    rcases hs d hd with rfl | hjoin
    · exact hc d rfl
    · simp only [joins, isNameChar_getLast hname hw, Bool.true_and, Bool.or_eq_false_iff] at hjoin
      exact hjoin.1.1.1.1
  rw [Bool.not_eq_true] at hname
  by_cases hquote : x = ch '\''
  · subst hquote
    rw [width_of_some (flSqlSkip_string _), Nat.add_comm, Nat.add_right_cancel_iff] at h ⊢
    obtain ⟨hlast, hc, hnext⟩ := stringLength_next h
    exact hnext s (head_ne_of_joins (getLast?_of_suffix hlast [_]) (by decide) hc hs)
  by_cases hdouble : x = ch '"'
  · subst hdouble
    rw [width_of_some (flSqlSkip_quoted _), Nat.add_comm, Nat.add_right_cancel_iff] at h ⊢
    obtain ⟨hlast, hc, hnext⟩ := quotedLength_next h
    exact hnext s (head_ne_of_joins (getLast?_of_suffix hlast [_]) (by decide) hc hs)
  cases w with
  | nil =>
    cases s with
    | nil => exact width_of_none (flSqlSkip_single hname hquote hdouble)
    | cons d s =>
      apply width_of_none
      refine flSqlSkip_next hname hquote hdouble (c := c) (t := t) ?_ (hs d rfl)
      rw [List.nil_append] at h
      cases hskip : flSqlSkip (x :: c :: t) with
      | none => rfl
      | some n =>
        rw [width_of_some hskip, List.length_nil] at h
        rw [flSqlSkip_pair hname hquote hdouble] at hskip
        split_ifs at hskip <;> cases hskip <;> omega
  | cons y w =>
    rw [List.cons_append, List.length_cons] at h ⊢
    have hskip := flSqlSkip_pair hname hquote hdouble y
    by_cases hline : (x = ch '-' ∧ y = ch '-') ∨ (x = ch '/' ∧ y = ch '/')
    · rw [width_of_some ((hskip _).trans (if_pos hline))] at h ⊢
      rw [lineCommentLength_next (c := c) (t := t) (by omega) s]
      omega
    by_cases hblock : x = ch '/' ∧ y = ch '*'
    · rw [width_of_some ((hskip _).trans ((if_neg hline).trans (if_pos hblock)))] at h ⊢
      rw [closedLength_next (c := c) (t := t) rfl (by omega) s]
      omega
    by_cases hbody : x = ch '$' ∧ y = ch '$'
    · rw [width_of_some ((hskip _).trans
        ((if_neg hline).trans ((if_neg hblock).trans (if_pos hbody))))] at h ⊢
      rw [closedLength_next (c := c) (t := t) rfl (by omega) s]
      omega
    · rw [width_of_none ((hskip _).trans
        ((if_neg hline).trans ((if_neg hblock).trans (if_neg hbody))))] at h
      omega

/-- How far a segment goes is settled by the character behind it. -/
theorem local_flSqlSkip : Local flSqlSkip := fun ha h hs => width_next ha h fun d hd => .inl (hs d hd)

end FrostlakeOdbc
