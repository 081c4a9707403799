import FrostlakeOdbc.ScannerProof

/-!
# What the scanner steps over

Six constructs open at the start of a text, each with its own first characters, and each ends with the
first place behind them where it closes, or with the text where it does not close. The scanner steps
over just these (`flSqlSkip_eq_some_iff`).
-/

namespace FrostlakeOdbc

open CString Scan

/-! ## The constructs -/

/-- What may stand between two quotes `q`: other characters, doubled quotes and, where a backslash
escapes, a backslash with the character behind it. -/
inductive Enclosed (q : UInt8) (escapes : Bool) : Bytes → Prop where
  | nil : Enclosed q escapes []
  | plain {c : UInt8} {s : Bytes} (hquote : c ≠ q) (hback : escapes = true → c ≠ ch '\\')
      (h : Enclosed q escapes s) : Enclosed q escapes (c :: s)
  | escaped (c : UInt8) {s : Bytes} (hescapes : escapes = true) (h : Enclosed q escapes s) :
      Enclosed q escapes (ch '\\' :: c :: s)
  | doubled {s : Bytes} (h : Enclosed q escapes s) : Enclosed q escapes (q :: q :: s)

/-- A quote that is neither escaped nor one of a doubled pair stands `i` characters behind the opening
one. -/
def ClosesQuote (q : UInt8) (escapes : Bool) (s : Bytes) (i : ℕ) : Prop :=
  Enclosed q escapes (s.take i) ∧ s[i]? = some q ∧ s[i + 1]? ≠ some q

inductive Construct : Type where
  | name
  | string
  | quotedIdentifier
  | lineComment
  | blockComment
  | body

namespace Construct

/-- A construct opens at the start of a text. -/
def Opens : Construct → Bytes → Prop
  | name, s => ∃ c ∈ s.head?, isNameStart c = true
  | string, s => lit "'" <+: s
  | quotedIdentifier, s => lit "\"" <+: s
  | lineComment, s => lit "--" <+: s ∨ lit "//" <+: s
  | blockComment, s => lit "/*" <+: s
  | body, s => lit "$$" <+: s

/-- How many characters open it. -/
def opening : Construct → ℕ
  | name | string | quotedIdentifier => 1
  | lineComment | blockComment | body => 2

/-- It closes `i` characters behind those. -/
def Closes : Construct → Bytes → ℕ → Prop
  | name, s, i => ∃ c ∈ s[i]?, isNameChar c = false
  | string, s, i => ClosesQuote (ch '\'') true s i
  | quotedIdentifier, s, i => ClosesQuote (ch '"') false s i
  | lineComment, s, i => ∃ c ∈ s[i]?, c = ch '\n' ∨ c = ch '\r'
  | blockComment, s, i => lit "*/" <+: s.drop i
  | body, s, i => lit "$$" <+: s.drop i

/-- How many characters close it. What follows a name is no part of it. -/
def closing : Construct → ℕ
  | name => 0
  | string | quotedIdentifier | lineComment => 1
  | blockComment | body => 2

/-- It ends `n` characters behind the start of a text. -/
def EndsAt (construct : Construct) (s : Bytes) (n : ℕ) : Prop :=
  ∃ m, n = construct.opening + m ∧
    Through (construct.Closes (s.drop construct.opening)) construct.closing
      (s.length - construct.opening) m

end Construct

/-! ## Where the constructs end -/

/-- A run of bytes goes up to the first that is not of its kind. -/
theorem through_takeWhile (p : UInt8 → Bool) (s : Bytes) :
    Through (fun i => ∃ c ∈ s[i]?, p c = false) 0 s.length (s.takeWhile p).length := by
  induction s with
  | nil => exact .unclosed fun i ⟨c, hc, _⟩ => by cases hc
  | cons c s ih =>
    rw [List.takeWhile_cons]
    cases hc : p c with
    | true =>
      rw [if_pos rfl, List.length_cons, List.length_cons]
      refine ih.shift (fun i hi => ?_) fun i => by rw [List.getElem?_cons_succ]
      rw [Nat.lt_one_iff.1 hi]
      rintro ⟨d, ⟨⟩, hp⟩
      rw [hc] at hp
      cases hp
    | false => exact .closed ⟨c, rfl, hc⟩ fun j hj => absurd hj (Nat.not_lt_zero j)

theorem through_find {pat : Bytes} (hpat : pat ≠ []) (s : Bytes) :
    Through (fun i => pat <+: s.drop i) pat.length s.length
      (((find pat s).map (· + pat.length)).getD s.length) := by
  induction s with
  | nil =>
    rw [find, if_neg hpat]
    refine .unclosed fun i hprefix => hpat ?_
    rw [List.drop_nil] at hprefix
    exact List.prefix_nil.1 hprefix
  | cons c s ih =>
    by_cases hprefix : pat <+: c :: s
    · rw [find_cons, if_pos hprefix]
      exact .closed hprefix fun j hj => absurd hj (Nat.not_lt_zero j)
    · have hshift := @Through.shift _ _ _ _ (fun i => pat <+: (c :: s).drop i) 1 ih
        (fun i hi => by rwa [Nat.lt_one_iff.1 hi]) fun i => by rw [List.drop_succ_cons]
      rw [find_cons_of_not hprefix, List.length_cons]
      cases hfind : find pat s with
      | none => rwa [hfind] at hshift
      | some n =>
        rw [hfind] at hshift
        simp only [Option.map_some, Option.getD_some] at hshift ⊢
        rwa [Nat.add_right_comm] at hshift

section

variable {q : UInt8} {escapes : Bool} {s : Bytes}

/-! What stands first between two quotes does not matter for the rest. -/

theorem enclosed_plain {c : UInt8} (hquote : c ≠ q) (hback : escapes = true → c ≠ ch '\\') :
    Enclosed q escapes (c :: s) ↔ Enclosed q escapes s := by
  constructor
  · intro h
    cases h with
    | plain _ _ h => exact h
    | escaped _ hescapes _ => exact absurd rfl (hback hescapes)
    | doubled _ => exact absurd rfl hquote
  · exact .plain hquote hback

theorem enclosed_escaped (hq : q ≠ ch '\\') (c : UInt8) :
    Enclosed q true (ch '\\' :: c :: s) ↔ Enclosed q true s := by
  constructor
  · intro h
    cases h with
    | plain _ hback _ => exact absurd rfl (hback rfl)
    | escaped _ _ h => exact h
    | doubled _ => exact absurd rfl hq
  · exact .escaped c rfl

theorem enclosed_doubled (hq : q ≠ ch '\\') :
    Enclosed q escapes (q :: q :: s) ↔ Enclosed q escapes s := by
  constructor
  · intro h
    cases h with
    | plain hquote _ _ => exact absurd rfl hquote
    | escaped _ _ _ => exact absurd rfl hq
    | doubled h => exact h
  · exact .doubled

/-- Where `front` reads as one piece, what closes behind it is what closes in the rest. -/
theorem through_closesQuote_append {front : Bytes} {w len n : ℕ}
    (h : Through (ClosesQuote q escapes s) w len n)
    (hfront : ∀ i < front.length, ¬ClosesQuote q escapes (front ++ s) i)
    (hbehind : ∀ t, Enclosed q escapes (front ++ t) ↔ Enclosed q escapes t) :
    Through (ClosesQuote q escapes (front ++ s)) w (len + front.length) (n + front.length) := by
  refine h.shift hfront fun i => ?_
  unfold ClosesQuote
  rw [Nat.add_comm i, Nat.add_assoc, List.take_length_add_append, hbehind,
    List.getElem?_append_right (Nat.le_add_right ..), List.getElem?_append_right (Nat.le_add_right ..),
    Nat.add_sub_cancel_left, Nat.add_sub_cancel_left]

theorem not_closesQuote_head {c : UInt8} (hc : c ≠ q) : ¬ClosesQuote q escapes (c :: s) 0 :=
  fun h => hc (Option.some.inj h.2.1)

/-- A backslash or a quote is not enclosed on its own. -/
theorem not_enclosed_singleton {c : UInt8} (hc : c = q ∨ escapes = true ∧ c = ch '\\') :
    ¬Enclosed q escapes [c] := by
  intro h
  cases h with
  | plain hquote hback _ => exact hc.elim hquote fun h => hback h.1 h.2

/-- A pair that is one piece closes nothing. -/
theorem not_closesQuote_pair {c d : UInt8} (hc : c = q ∨ escapes = true ∧ c = ch '\\')
    (hhead : ¬ClosesQuote q escapes (c :: d :: s) 0) :
    ∀ i < 2, ¬ClosesQuote q escapes ([c, d] ++ s) i := by
  intro i hi
  match i with
  | 0 => exact hhead
  | 1 => exact fun h => not_enclosed_singleton hc h.1

theorem through_closesQuote_singleton (c : UInt8) : Through (ClosesQuote q escapes [c]) 1 1 1 := by
  by_cases hc : c = q
  · subst hc
    have hzero : ClosesQuote c escapes [c] 0 := ⟨.nil, rfl, nofun⟩
    exact .closed hzero fun j hj => absurd hj (Nat.not_lt_zero j)
  · refine .unclosed fun i h => ?_
    cases i with
    | zero => exact not_closesQuote_head hc h
    | succ i => cases h.2.1

theorem through_closesQuote_single {d : UInt8} (hd : d ≠ q) (len : ℕ) :
    Through (ClosesQuote q escapes (q :: d :: s)) 1 len 1 := by
  have hzero : ClosesQuote q escapes (q :: d :: s) 0 := ⟨.nil, rfl, fun h => hd (Option.some.inj h)⟩
  exact .closed hzero fun j hj => absurd hj (Nat.not_lt_zero j)

theorem through_closesQuote_doubled (hq : q ≠ ch '\\') {n : ℕ}
    (h : Through (ClosesQuote q escapes s) 1 s.length n) :
    Through (ClosesQuote q escapes (q :: q :: s)) 1 (q :: q :: s).length (n + 2) := by
  have hhead : ¬ClosesQuote q escapes (q :: q :: s) 0 := fun h => h.2.2 rfl
  exact @through_closesQuote_append q escapes s [q, q] _ _ _ h (not_closesQuote_pair (.inl rfl) hhead)
    fun t => enclosed_doubled hq

theorem through_closesQuote_plain {c : UInt8} (hquote : c ≠ q) (hback : escapes = true → c ≠ ch '\\')
    {n : ℕ} (h : Through (ClosesQuote q escapes s) 1 s.length n) :
    Through (ClosesQuote q escapes (c :: s)) 1 (c :: s).length (n + 1) := by
  refine @through_closesQuote_append q escapes s [c] _ _ _ h (fun i hi => ?_) fun t =>
    enclosed_plain hquote hback
  rw [Nat.lt_one_iff.1 hi]
  exact not_closesQuote_head hquote

end

/-- The loop over a string finds the quote that closes it. -/
theorem through_stringLength : ∀ s : Bytes,
    Through (ClosesQuote (ch '\'') true s) 1 s.length (stringLength s)
  | [] => .unclosed fun i h => by cases h.2.1
  | [c] => through_closesQuote_singleton c
  | c :: d :: rest => by
      rw [stringLength]
      split_ifs with hback hquote hnext
      · subst hback
        have hhead : ¬ClosesQuote (ch '\'') true (ch '\\' :: d :: rest) 0 :=
          not_closesQuote_head (by decide)
        rw [Nat.add_comm]
        exact @through_closesQuote_append _ true rest [ch '\\', d] _ _ _ (through_stringLength rest)
          (not_closesQuote_pair (.inr ⟨rfl, rfl⟩) hhead) fun t => enclosed_escaped (by decide) d
      · subst hquote
        exact through_closesQuote_single hnext _
      · obtain rfl : d = ch '\'' := Decidable.not_not.1 hnext
        subst hquote
        rw [Nat.add_comm]
        exact through_closesQuote_doubled (by decide) (through_stringLength rest)
      · rw [Nat.add_comm]
        exact through_closesQuote_plain hquote (fun _ => hback) (through_stringLength (d :: rest))

/-- So does the loop over a quoted identifier. -/
theorem through_quotedLength : ∀ s : Bytes,
    Through (ClosesQuote (ch '"') false s) 1 s.length (quotedLength s)
  | [] => .unclosed fun i h => by cases h.2.1
  | [c] => through_closesQuote_singleton c
  | c :: d :: rest => by
      rw [quotedLength]
      split_ifs with hquote hnext
      · subst hquote
        exact through_closesQuote_single hnext _
      · obtain rfl : d = ch '"' := Decidable.not_not.1 hnext
        subst hquote
        rw [Nat.add_comm]
        exact through_closesQuote_doubled (by decide) (through_quotedLength rest)
      · rw [Nat.add_comm]
        exact through_closesQuote_plain hquote (fun h => absurd h Bool.false_ne_true)
          (through_quotedLength (d :: rest))

theorem through_lineCommentLength (s : Bytes) :
    Through (Construct.lineComment.Closes s) 1 s.length (lineCommentLength s) := by
  have hthrough := through_takeWhile (fun c => c ≠ ch '\r' && c ≠ ch '\n') s
  unfold lineCommentLength
  refine (hthrough.widen fun i ⟨c, hc, _⟩ => (List.getElem?_eq_some_iff.1 hc).1).congr fun i => ?_
  simp only [Construct.Closes, Bool.and_eq_false_iff, decide_eq_false_iff_not, not_not, or_comm]

theorem through_closedLength {close : Bytes} (hclose : close.length = 2) (s : Bytes) :
    Through (fun i => close <+: s.drop i) 2 s.length (closedLength close s) := by
  have hthrough := through_find (List.ne_nil_of_length_pos (hclose ▸ Nat.two_pos)) s
  rw [hclose] at hthrough
  unfold closedLength
  cases hfind : find close s with
  | none => rwa [hfind] at hthrough
  | some n => rwa [hfind] at hthrough

namespace Construct

/-- How far the scanner goes behind the characters that open a construct. -/
def length : Construct → Bytes → ℕ
  | name, s => (s.takeWhile isNameChar).length
  | string, s => stringLength s
  | quotedIdentifier, s => quotedLength s
  | lineComment, s => lineCommentLength s
  | blockComment, s => closedLength (lit "*/") s
  | body, s => closedLength (lit "$$") s

theorem through_length (construct : Construct) (s : Bytes) :
    Through (construct.Closes s) construct.closing s.length (construct.length s) := by
  cases construct with
  | name => exact through_takeWhile isNameChar s
  | string => exact through_stringLength s
  | quotedIdentifier => exact through_quotedLength s
  | lineComment => exact through_lineCommentLength s
  | blockComment => exact through_closedLength rfl s
  | body => exact through_closedLength rfl s

theorem Closes.le {construct : Construct} {s : Bytes} {i : ℕ} (h : construct.Closes s i) :
    i + construct.closing ≤ s.length := by
  have hpair : ∀ close : Bytes, close.length = 2 → close <+: s.drop i → i + 2 ≤ s.length := by
    intro close hclose hprefix
    have hle := hprefix.length_le
    rw [List.length_drop] at hle
    omega
  cases construct with
  | name =>
    obtain ⟨c, hc, -⟩ := h
    exact Nat.le_of_lt (List.getElem?_eq_some_iff.1 hc).1
  | string => exact (List.getElem?_eq_some_iff.1 h.2.1).1
  | quotedIdentifier => exact (List.getElem?_eq_some_iff.1 h.2.1).1
  | lineComment =>
    obtain ⟨c, hc, -⟩ := h
    exact (List.getElem?_eq_some_iff.1 hc).1
  | blockComment => exact hpair _ rfl h
  | body => exact hpair _ rfl h

theorem length_le (construct : Construct) (s : Bytes) : construct.length s ≤ s.length :=
  (construct.through_length s).le fun _ => Closes.le

theorem Opens.opening_le {construct : Construct} {s : Bytes} (h : construct.Opens s) :
    construct.opening ≤ s.length := by
  cases construct with
  | name =>
    obtain ⟨c, hc, -⟩ := h
    exact List.length_pos_iff.2 (by rintro rfl; cases hc)
  | string => exact h.length_le
  | quotedIdentifier => exact h.length_le
  | lineComment => exact h.elim List.IsPrefix.length_le List.IsPrefix.length_le
  | blockComment => exact h.length_le
  | body => exact h.length_le

end Construct

/-! ## The scanner -/

section

variable {s : Bytes} {n : ℕ}

theorem flSqlSkip_of_opens {construct : Construct} (h : construct.Opens s) :
    flSqlSkip s = some (construct.opening + construct.length (s.drop construct.opening)) := by
  cases construct with
  | name =>
    obtain ⟨c, hc, hname⟩ := h
    obtain ⟨rest, rfl⟩ := List.head?_eq_some_iff.1 hc
    exact flSqlSkip_name rest hname
  | string =>
    obtain ⟨rest, rfl⟩ := h
    exact flSqlSkip_string rest
  | quotedIdentifier =>
    obtain ⟨rest, rfl⟩ := h
    exact flSqlSkip_quoted rest
  | lineComment =>
    obtain ⟨rest, rfl⟩ | ⟨rest, rfl⟩ := h
    · exact (flSqlSkip_pair (by decide) (by decide) (by decide) _ rest).trans (if_pos (by decide))
    · exact (flSqlSkip_pair (by decide) (by decide) (by decide) _ rest).trans (if_pos (by decide))
  | blockComment =>
    obtain ⟨rest, rfl⟩ := h
    refine (flSqlSkip_pair (by decide) (by decide) (by decide) _ rest).trans ?_
    rw [if_neg (by decide), if_pos (by decide)]
    rfl
  | body =>
    obtain ⟨rest, rfl⟩ := h
    refine (flSqlSkip_pair (by decide) (by decide) (by decide) _ rest).trans ?_
    rw [if_neg (by decide), if_neg (by decide), if_pos (by decide)]
    rfl

theorem opens_of_flSqlSkip (h : flSqlSkip s = some n) : ∃ construct : Construct, construct.Opens s := by
  have hpair : ∀ {c d : UInt8} {rest : Bytes}, rest.head? = some d → [c, d] <+: c :: rest := by
    intro c d rest hd
    obtain ⟨rest, rfl⟩ := List.head?_eq_some_iff.1 hd
    exact List.prefix_append [c, d] rest
  cases s with
  | nil => cases h
  | cons c rest =>
    rw [flSqlSkip] at h
    split_ifs at h with hname hstring hquoted hline hblock hbody
    · exact ⟨.name, c, rfl, hname⟩
    · exact ⟨.string, hstring ▸ List.prefix_append [c] rest⟩
    · exact ⟨.quotedIdentifier, hquoted ▸ List.prefix_append [c] rest⟩
    · obtain ⟨rfl, hd⟩ | ⟨rfl, hd⟩ := hline
      · exact ⟨.lineComment, .inl (hpair hd)⟩
      · exact ⟨.lineComment, .inr (hpair hd)⟩
    · obtain ⟨rfl, hd⟩ := hblock
      exact ⟨.blockComment, hpair hd⟩
    · obtain ⟨rfl, hd⟩ := hbody
      exact ⟨.body, hpair hd⟩

/-- The scanner steps over a construct where one opens. -/
theorem flSqlSkip_isSome_iff :
    (flSqlSkip s).isSome = true ↔ ∃ construct : Construct, construct.Opens s := by
  constructor
  · intro h
    obtain ⟨n, hn⟩ := Option.isSome_iff_exists.1 h
    exact opens_of_flSqlSkip hn
  · rintro ⟨construct, hopens⟩
    rw [flSqlSkip_of_opens hopens]
    rfl

/-- It then goes to the construct's end. -/
theorem flSqlSkip_eq_some_iff :
    flSqlSkip s = some n ↔ ∃ construct : Construct, construct.Opens s ∧ construct.EndsAt s n := by
  have hends : ∀ construct : Construct,
      construct.EndsAt s (construct.opening + construct.length (s.drop construct.opening)) := by
    intro construct
    have hthrough := construct.through_length (s.drop construct.opening)
    rw [List.length_drop] at hthrough
    exact ⟨_, rfl, hthrough⟩
  constructor
  · intro h
    obtain ⟨construct, hopens⟩ := opens_of_flSqlSkip h
    rw [flSqlSkip_of_opens hopens] at h
    obtain rfl := Option.some.inj h
    exact ⟨construct, hopens, hends construct⟩
  · rintro ⟨construct, hopens, m, rfl, hm⟩
    obtain ⟨m', hm', hthrough⟩ := hends construct
    rw [flSqlSkip_of_opens hopens, hm', hthrough.unique hm]

theorem flSqlSkip_le (h : flSqlSkip s = some n) : n ≤ s.length := by
  obtain ⟨construct, hopens⟩ := opens_of_flSqlSkip h
  rw [flSqlSkip_of_opens hopens] at h
  obtain rfl := Option.some.inj h
  have hle := construct.length_le (s.drop construct.opening)
  have hopening := hopens.opening_le
  rw [List.length_drop] at hle
  omega

end

end FrostlakeOdbc
