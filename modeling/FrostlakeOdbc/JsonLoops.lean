import FrostlakeOdbc.Json

/-!
# The loops of the JSON parser

One turn of each loop is described by an equivalence. Every turn takes at least one byte, so the
length of the text is budget enough for a loop, and the loops satisfy the equations of the unbounded
loops of the source.
-/

namespace FrostlakeOdbc

open CString JsonText

/-- What a parser leaves is no longer than what it was given. -/
def Shrinks {β : Type} (p : Bytes → Option (β × Bytes)) : Prop :=
  ∀ {s : Bytes} {v : β} {rest : Bytes}, p s = some (v, rest) → rest.length ≤ s.length

theorem length_skipWs_le (s : Bytes) : (skipWs s).length ≤ s.length := List.length_dropWhile_le _ _

/-! ## Strings -/

theorem parseHex4_eq_some_iff {s rest : Bytes} {n : ℕ} :
    parseHex4 s = some (n, rest) ↔ ∃ a b c d va vb vc vd, s = a :: b :: c :: d :: rest ∧
      hexDigit a = some va ∧ hexDigit b = some vb ∧ hexDigit c = some vc ∧ hexDigit d = some vd ∧
      n = ((va * 16 + vb) * 16 + vc) * 16 + vd := by
  constructor
  · intro h
    unfold parseHex4 at h
    split at h
    · split at h
      · next ha hb hc hd =>
        cases h
        exact ⟨_, _, _, _, _, _, _, _, rfl, ha, hb, hc, hd, rfl⟩
      · cases h
    · cases h
  · rintro ⟨a, b, c, d, va, vb, vc, vd, rfl, ha, hb, hc, hd, rfl⟩
    simp only [parseHex4, ha, hb, hc, hd]

theorem length_parseHex4 {s rest : Bytes} {n : ℕ} (h : parseHex4 s = some (n, rest)) :
    s.length = rest.length + 4 := by
  obtain ⟨_, _, _, _, _, _, _, _, rfl, -⟩ := parseHex4_eq_some_iff.1 h
  rfl

/-- The two ways a `\u` escape is read. -/
theorem parseUnicode_eq_some_iff {s d rest : Bytes} :
    parseUnicode s = some (d, rest) ↔ ∃ cp r, parseHex4 s = some (cp, r) ∧
      ((opensPair cp r = true ∧ ∃ low, parseHex4 (r.drop 2) = some (low, rest) ∧
          d = appendUtf8 (combine cp low)) ∨
        (opensPair cp r = false ∧ d = appendUtf8 cp ∧ rest = r)) := by
  constructor
  · intro h
    obtain ⟨⟨cp, r⟩, hr, h⟩ := Option.bind_eq_some_iff.1 h
    refine ⟨cp, r, hr, ?_⟩
    dsimp only at h
    by_cases hp : opensPair cp r = true
    · rw [if_pos hp] at h
      obtain ⟨⟨low, r'⟩, hr', h⟩ := Option.map_eq_some_iff.1 h
      simp only [Prod.mk.injEq] at h
      obtain ⟨rfl, rfl⟩ := h
      exact Or.inl ⟨hp, low, hr', rfl⟩
    · rw [if_neg hp] at h
      simp only [Option.some.injEq, Prod.mk.injEq] at h
      obtain ⟨rfl, rfl⟩ := h
      exact Or.inr ⟨by simpa using hp, rfl, rfl⟩
  · rintro ⟨cp, r, hr, ⟨hp, low, hr', rfl⟩ | ⟨hp, rfl, rfl⟩⟩
    · simp only [parseUnicode, hr, Option.bind_some, hp, if_true, hr', Option.map_some]
    · simp only [parseUnicode, hr, Option.bind_some, hp, Bool.false_eq_true, if_false]

/-- The three ways a turn of the string loop can go. -/
theorem parseStringItem_eq_some_iff {c : UInt8} {s d rest : Bytes} :
    parseStringItem c s = some (d, rest) ↔
      (c ≠ ch '\\' ∧ d = [c] ∧ rest = s) ∨
      (c = ch '\\' ∧ ∃ esc b, s = esc :: rest ∧ unescape esc = some b ∧ d = [b]) ∨
      (c = ch '\\' ∧ ∃ r, s = ch 'u' :: r ∧ parseUnicode r = some (d, rest)) := by
  by_cases hc : c = ch '\\'
  · subst hc
    cases s with
    | nil => simp [parseStringItem]
    | cons esc s =>
      have hu : unescape (ch 'u') = none := rfl
      by_cases he : esc = ch 'u'
      · subst he
        simp only [parseStringItem, if_true, ne_eq, not_true_eq_false, false_and, false_or, true_and,
          List.cons.injEq]
        constructor
        · exact fun h => Or.inr ⟨s, rfl, h⟩
        · rintro (⟨esc, b, ⟨rfl, rfl⟩, hb, -⟩ | ⟨r, rfl, h⟩)
          · rw [hu] at hb
            cases hb
          · exact h
      · simp only [parseStringItem, if_true, if_neg he, ne_eq, not_true_eq_false, false_and, false_or,
          true_and, List.cons.injEq, Option.map_eq_some_iff, Prod.mk.injEq]
        constructor
        · rintro ⟨b, hb, rfl, rfl⟩
          exact Or.inl ⟨esc, b, ⟨rfl, rfl⟩, hb, rfl⟩
        · rintro (⟨esc', b, ⟨rfl, rfl⟩, hb, rfl⟩ | ⟨r, ⟨rfl, -⟩, -⟩)
          · exact ⟨b, hb, rfl, rfl⟩
          · exact absurd rfl he
  · unfold parseStringItem
    rw [if_neg hc]
    simp only [Option.some.injEq, Prod.mk.injEq, ne_eq, hc, not_false_eq_true, true_and, false_and,
      or_false]
    rw [eq_comm, @eq_comm _ s rest]

theorem length_parseStringItem {c : UInt8} : Shrinks (parseStringItem c) := by
  intro s d rest h
  rcases parseStringItem_eq_some_iff.1 h with ⟨-, -, rfl⟩ | ⟨-, esc, b, rfl, -⟩ | ⟨-, r, rfl, hr⟩
  · exact Nat.le_refl _
  · simp
  · obtain ⟨cp, r', hr', ⟨-, low, hl, -⟩ | ⟨-, -, rfl⟩⟩ := parseUnicode_eq_some_iff.1 hr
    · have h₁ := length_parseHex4 hr'
      have h₂ := length_parseHex4 hl
      rw [List.length_drop] at h₂
      rw [List.length_cons]
      omega
    · have h₁ := length_parseHex4 hr'
      rw [List.length_cons]
      omega

/-- One turn of the loop of `parse_string_body`. -/
theorem parseStringLoop_succ_eq_some_iff {fuel : ℕ} {s t rest : Bytes} :
    parseStringLoop (fuel + 1) s = some (t, rest) ↔ ∃ c s', s = c :: s' ∧
      ((c = ch '"' ∧ t = [] ∧ rest = s') ∨
        (c ≠ ch '"' ∧ ∃ d r t', parseStringItem c s' = some (d, r) ∧
          parseStringLoop fuel r = some (t', rest) ∧ t = d ++ t')) := by
  cases s with
  | nil => simp [parseStringLoop]
  | cons c s =>
    simp only [parseStringLoop, List.cons.injEq]
    by_cases hc : c = ch '"'
    · simp only [if_pos hc, Option.some.injEq, Prod.mk.injEq]
      constructor
      · rintro ⟨rfl, rfl⟩
        exact ⟨c, s, ⟨rfl, rfl⟩, Or.inl ⟨hc, rfl, rfl⟩⟩
      · rintro ⟨c', s', ⟨rfl, rfl⟩, ⟨-, rfl, rfl⟩ | ⟨hne, -⟩⟩
        · exact ⟨rfl, rfl⟩
        · exact absurd hc hne
    · simp only [if_neg hc, Option.bind_eq_some_iff, Option.map_eq_some_iff, Prod.mk.injEq,
        Prod.exists]
      constructor
      · rintro ⟨d, r, hd, t', r', ht, rfl, rfl⟩
        exact ⟨c, s, ⟨rfl, rfl⟩, Or.inr ⟨hc, d, r, t', hd, ht, rfl⟩⟩
      · rintro ⟨c', s', ⟨rfl, rfl⟩, ⟨h, -⟩ | ⟨-, d, r, t', hd, ht, rfl⟩⟩
        · exact absurd h hc
        · exact ⟨d, r, hd, t', rest, ht, rfl, rfl⟩

theorem parseStringLoop_succ {fuel : ℕ} {s : Bytes} (h : s.length ≤ fuel) :
    parseStringLoop (fuel + 1) s = parseStringLoop fuel s := by
  induction fuel generalizing s with
  | zero =>
    obtain rfl : s = [] := List.length_eq_zero_iff.1 (Nat.le_zero.1 h)
    rfl
  | succ fuel ih =>
    refine Option.ext fun ⟨t, rest⟩ => ?_
    rw [parseStringLoop_succ_eq_some_iff, parseStringLoop_succ_eq_some_iff]
    refine exists_congr fun c => exists_congr fun s' => and_congr_right fun hs => ?_
    subst hs
    refine or_congr_right (and_congr_right fun _ => exists_congr fun d => exists_congr fun r =>
      exists_congr fun t' => and_congr_right fun hd => ?_)
    have := length_parseStringItem hd
    rw [ih (by simp only [List.length_cons] at h; omega)]

theorem parseStringLoop_budget {fuel : ℕ} {s : Bytes} (h : s.length ≤ fuel) :
    parseStringLoop fuel s = parseStringBody s := by
  induction fuel, h using Nat.le_induction with
  | base => rfl
  | succ fuel hf ih => rw [parseStringLoop_succ hf, ih]

/-- The equation of `parse_string_body`. -/
theorem parseStringBody_eq_some_iff {s t rest : Bytes} :
    parseStringBody s = some (t, rest) ↔ ∃ c s', s = c :: s' ∧
      ((c = ch '"' ∧ t = [] ∧ rest = s') ∨
        (c ≠ ch '"' ∧ ∃ d r t', parseStringItem c s' = some (d, r) ∧
          parseStringBody r = some (t', rest) ∧ t = d ++ t')) := by
  rw [← parseStringLoop_budget (Nat.le_succ s.length), parseStringLoop_succ_eq_some_iff]
  refine exists_congr fun c => exists_congr fun s' => and_congr_right fun hs => ?_
  subst hs
  refine or_congr_right (and_congr_right fun _ => exists_congr fun d => exists_congr fun r =>
    exists_congr fun t' => and_congr_right fun hd => ?_)
  have := length_parseStringItem hd
  rw [parseStringLoop_budget (by simp only [List.length_cons]; omega)]

theorem shrinks_parseStringBody : Shrinks parseStringBody := by
  intro s t rest h
  induction hn : s.length using Nat.strongRecOn generalizing s t with
  | ind n ih =>
    obtain ⟨c, s', rfl, ⟨-, -, rfl⟩ | ⟨-, d, r, t', hd, ht, -⟩⟩ := parseStringBody_eq_some_iff.1 h
    · simp only [List.length_cons] at hn
      omega
    · have hr := length_parseStringItem hd
      simp only [List.length_cons] at hn
      have := ih r.length (by omega) ht rfl
      omega

/-! ## Arrays and objects -/

theorem parseKey_eq_some_iff {s key rest : Bytes} :
    parseKey s = some (key, rest) ↔ ∃ r r', skipWs s = ch '"' :: r ∧
      parseStringBody r = some (key, r') ∧ skipWs r' = ch ':' :: rest := by
  unfold parseKey
  constructor
  · intro h
    split at h
    · next c r hc =>
      by_cases hq : c = ch '"'
      · subst hq
        rw [if_pos rfl] at h
        obtain ⟨⟨k, r'⟩, hk, h⟩ := Option.bind_eq_some_iff.1 h
        dsimp only at h
        split at h
        · next c' r'' hc' =>
          by_cases hq' : c' = ch ':'
          · subst hq'
            rw [if_pos rfl] at h
            cases h
            exact ⟨r, r', hc, hk, hc'⟩
          · rw [if_neg hq'] at h
            cases h
        · cases h
      · rw [if_neg hq] at h
        cases h
    · cases h
  · rintro ⟨r, r', hr, hk, hr'⟩
    simp only [hr, if_true, hk, Option.bind_some, hr']

theorem parseMember_eq_some_iff {pv : ValueParser} {s rest : Bytes} {m : Bytes × Value} :
    parseMember pv s = some (m, rest) ↔
      ∃ r, parseKey s = some (m.1, r) ∧ pv r = some (m.2, rest) := by
  simp only [parseMember, Option.bind_eq_some_iff, Option.map_eq_some_iff, Prod.mk.injEq,
    Prod.exists]
  constructor
  · rintro ⟨k, r, hk, v, r', hv, rfl, rfl⟩
    exact ⟨r, hk, hv⟩
  · rintro ⟨r, hk, hv⟩
    exact ⟨m.1, r, hk, m.2, rest, hv, rfl, rfl⟩

section

variable {β : Type} {item : Bytes → Option (β × Bytes)} {close : UInt8}

/-- One turn of the loop over items. -/
theorem parseSeparated_succ_eq_some_iff {fuel : ℕ} {s rest : Bytes} {xs : List β} :
    parseSeparated item close (fuel + 1) s = some (xs, rest) ↔
      ∃ x r c r', item s = some (x, r) ∧ skipWs r = c :: r' ∧
        ((c = ch ',' ∧ ∃ ys, parseSeparated item close fuel r' = some (ys, rest) ∧ xs = x :: ys) ∨
          (c ≠ ch ',' ∧ c = close ∧ xs = [x] ∧ rest = r')) := by
  simp only [parseSeparated]
  constructor
  · intro h
    obtain ⟨⟨x, r⟩, hx, h⟩ := Option.bind_eq_some_iff.1 h
    dsimp only at h
    split at h
    · next c r' hc =>
      refine ⟨x, r, c, r', hx, hc, ?_⟩
      by_cases hcomma : c = ch ','
      · rw [if_pos hcomma] at h
        obtain ⟨⟨ys, r''⟩, hys, h⟩ := Option.map_eq_some_iff.1 h
        cases h
        exact Or.inl ⟨hcomma, ys, hys, rfl⟩
      · rw [if_neg hcomma] at h
        by_cases hclose : c = close
        · rw [if_pos hclose] at h
          cases h
          exact Or.inr ⟨hcomma, hclose, rfl, rfl⟩
        · rw [if_neg hclose] at h
          cases h
    · cases h
  · rintro ⟨x, r, c, r', hx, hc, ⟨rfl, ys, hys, rfl⟩ | ⟨hne, rfl, rfl, rfl⟩⟩
    · simp only [hx, Option.bind_some, hc, if_true, hys, Option.map_some]
    · simp only [hx, Option.bind_some, hc, if_neg hne, if_true]

theorem parseSeparated_succ (hitem : Shrinks item) (hnil : item [] = none) {fuel : ℕ} {s : Bytes}
    (h : s.length ≤ fuel) :
    parseSeparated item close (fuel + 1) s = parseSeparated item close fuel s := by
  induction fuel generalizing s with
  | zero =>
    obtain rfl : s = [] := List.length_eq_zero_iff.1 (Nat.le_zero.1 h)
    simp only [parseSeparated, hnil, Option.bind_none]
  | succ fuel ih =>
    refine Option.ext fun ⟨xs, rest⟩ => ?_
    rw [parseSeparated_succ_eq_some_iff, parseSeparated_succ_eq_some_iff]
    refine exists_congr fun x => exists_congr fun r => exists_congr fun c => exists_congr fun r' =>
      and_congr_right fun hx => and_congr_right fun hc => ?_
    have h₁ := hitem hx
    have h₂ := length_skipWs_le r
    rw [hc, List.length_cons] at h₂
    rw [ih (by omega)]

theorem parseSeparated_budget (hitem : Shrinks item) (hnil : item [] = none) {fuel : ℕ} {s : Bytes}
    (h : s.length ≤ fuel) :
    parseSeparated item close fuel s = parseSeparated item close s.length s := by
  induction fuel, h using Nat.le_induction with
  | base => rfl
  | succ fuel hf ih => rw [parseSeparated_succ hitem hnil hf, ih]

theorem shrinks_parseSeparated (hitem : Shrinks item) (fuel : ℕ) :
    Shrinks (parseSeparated item close fuel) := by
  induction fuel with
  | zero => exact fun h => by cases h
  | succ fuel ih =>
    intro s xs rest h
    obtain ⟨x, r, c, r', hx, hc, h⟩ := parseSeparated_succ_eq_some_iff.1 h
    have h₁ := hitem hx
    have h₂ := length_skipWs_le r
    rw [hc, List.length_cons] at h₂
    rcases h with ⟨-, ys, hys, -⟩ | ⟨-, -, -, rfl⟩
    · have := ih hys
      omega
    · omega

theorem parseList_eq_some_iff {s rest : Bytes} {xs : List β} :
    parseList item close s = some (xs, rest) ↔ ∃ c r, skipWs s = c :: r ∧
      ((c = close ∧ xs = [] ∧ rest = r) ∨
        (c ≠ close ∧ parseSeparated item close (c :: r).length (c :: r) = some (xs, rest))) := by
  unfold parseList
  constructor
  · intro h
    split at h
    · next c r hc =>
      refine ⟨c, r, hc, ?_⟩
      by_cases hclose : c = close
      · rw [if_pos hclose] at h
        cases h
        exact Or.inl ⟨hclose, rfl, rfl⟩
      · rw [if_neg hclose] at h
        exact Or.inr ⟨hclose, h⟩
    · cases h
  · rintro ⟨c, r, hc, ⟨rfl, rfl, rfl⟩ | ⟨hne, h⟩⟩
    · simp only [hc, if_true]
    · simp only [hc, if_neg hne, h]

theorem shrinks_parseList (hitem : Shrinks item) : Shrinks (parseList item close) := by
  intro s xs rest h
  have hs := length_skipWs_le s
  obtain ⟨c, r, hc, ⟨-, -, rfl⟩ | ⟨-, h⟩⟩ := parseList_eq_some_iff.1 h
  · rw [hc, List.length_cons] at hs
    omega
  · have := shrinks_parseSeparated hitem _ h
    rw [hc] at hs
    omega

end

/-! ## Values -/

theorem shrinks_parseMember {pv : ValueParser} (hpv : Shrinks pv) : Shrinks (parseMember pv) := by
  intro s m rest h
  obtain ⟨r, hk, hv⟩ := parseMember_eq_some_iff.1 h
  obtain ⟨r₁, r₂, h₁, h₂, h₃⟩ := parseKey_eq_some_iff.1 hk
  have l₀ := length_skipWs_le s
  have l₁ := shrinks_parseStringBody h₂
  have l₂ := length_skipWs_le r₂
  have l₃ := hpv hv
  rw [h₁, List.length_cons] at l₀
  rw [h₃, List.length_cons] at l₂
  omega

theorem parseMember_nil (pv : ValueParser) : parseMember pv [] = none := rfl

/-- What holds of each of the parsers `parse_value` calls holds of the one it calls. -/
theorem parserAt_induction {P : ValueParser → Prop} {nested : Option ValueParser} (c : UInt8)
    (object : P fun s => nested.bind fun parseValue => parseObject parseValue s)
    (array : P fun s => nested.bind fun parseValue => parseArray parseValue s)
    (string : P parseString) (literal : ∀ word node, P (parseLiteral word node))
    (number : P parseNumber) : P (parserAt nested c) := by
  unfold parserAt
  split_ifs
  · exact object
  · exact array
  · exact string
  · exact literal _ _
  · exact literal _ _
  · exact literal _ _
  · exact number

theorem parseString_eq_some_iff {s rest : Bytes} {v : Value} :
    parseString s = some (v, rest) ↔
      ∃ t, parseStringBody (s.drop 1) = some (t, rest) ∧ v = .string t := by
  simp only [parseString, Option.map_eq_some_iff, Prod.mk.injEq, Prod.exists]
  constructor
  · rintro ⟨t, r, ht, rfl, rfl⟩
    exact ⟨t, ht, rfl⟩
  · rintro ⟨t, ht, rfl⟩
    exact ⟨t, rest, ht, rfl, rfl⟩

theorem parseArray_eq_some_iff {pv : ValueParser} {s rest : Bytes} {v : Value} :
    parseArray pv s = some (v, rest) ↔
      ∃ vs, parseList pv (ch ']') (s.drop 1) = some (vs, rest) ∧ v = .array vs := by
  simp only [parseArray, Option.map_eq_some_iff, Prod.mk.injEq, Prod.exists]
  constructor
  · rintro ⟨t, r, ht, rfl, rfl⟩
    exact ⟨t, ht, rfl⟩
  · rintro ⟨t, ht, rfl⟩
    exact ⟨t, rest, ht, rfl, rfl⟩

theorem parseObject_eq_some_iff {pv : ValueParser} {s rest : Bytes} {v : Value} :
    parseObject pv s = some (v, rest) ↔
      ∃ ms, parseList (parseMember pv) (ch '\x7d') (s.drop 1) = some (ms, rest) ∧
        v = .object ms := by
  simp only [parseObject, Option.map_eq_some_iff, Prod.mk.injEq, Prod.exists]
  constructor
  · rintro ⟨t, r, ht, rfl, rfl⟩
    exact ⟨t, ht, rfl⟩
  · rintro ⟨t, ht, rfl⟩
    exact ⟨t, rest, ht, rfl, rfl⟩

theorem parseLiteral_eq_some_iff {word s rest : Bytes} {node v : Value} :
    parseLiteral word node s = some (v, rest) ↔ s = word ++ rest ∧ v = node := by
  unfold parseLiteral
  constructor
  · intro h
    split at h
    · next hp =>
      obtain ⟨t, rfl⟩ := List.isPrefixOf_iff_prefix.1 hp
      rw [List.drop_left] at h
      cases h
      exact ⟨rfl, rfl⟩
    · cases h
  · rintro ⟨rfl, rfl⟩
    rw [if_pos (List.isPrefixOf_iff_prefix.2 (List.prefix_append _ _)), List.drop_left]

theorem parseNumber_eq_some_iff {s rest : Bytes} {v : Value} :
    parseNumber s = some (v, rest) ↔ s.takeWhile isNumberByte ≠ [] ∧
      v = .number (s.takeWhile isNumberByte) ∧ rest = s.dropWhile isNumberByte := by
  unfold parseNumber
  constructor
  · intro h
    split at h
    · cases h
    · next hne =>
      cases h
      exact ⟨hne, rfl, rfl⟩
  · rintro ⟨hne, rfl, rfl⟩
    split
    · next h => exact absurd h hne
    · rfl

theorem shrinks_parserAt {nested : Option ValueParser} (hn : ∀ pv, nested = some pv → Shrinks pv)
    (c : UInt8) : Shrinks (parserAt nested c) := by
  refine parserAt_induction (P := fun p => Shrinks p) c ?_ ?_ ?_ ?_ ?_
  · intro s v rest h
    obtain ⟨pv, hpv, h⟩ := Option.bind_eq_some_iff.1 h
    obtain ⟨ms, hms, -⟩ := parseObject_eq_some_iff.1 h
    exact Nat.le_trans (shrinks_parseList (shrinks_parseMember (hn pv hpv)) hms) (by simp)
  · intro s v rest h
    obtain ⟨pv, hpv, h⟩ := Option.bind_eq_some_iff.1 h
    obtain ⟨vs, hvs, -⟩ := parseArray_eq_some_iff.1 h
    exact Nat.le_trans (shrinks_parseList (hn pv hpv) hvs) (by simp)
  · intro s v rest h
    obtain ⟨t, ht, -⟩ := parseString_eq_some_iff.1 h
    exact Nat.le_trans (shrinks_parseStringBody ht) (by simp)
  · intro word node s v rest h
    obtain ⟨rfl, -⟩ := parseLiteral_eq_some_iff.1 h
    simp
  · intro s v rest h
    obtain ⟨-, -, rfl⟩ := parseNumber_eq_some_iff.1 h
    exact List.length_dropWhile_le _ _

theorem shrinks_parseAt {nested : Option ValueParser} (hn : ∀ pv, nested = some pv → Shrinks pv) :
    Shrinks (parseAt nested) := by
  intro s v rest h
  cases s with
  | nil => cases h
  | cons c s => exact shrinks_parserAt hn c h

theorem shrinks_parseValue (depth : ℕ) : Shrinks (parseValue depth) := by
  induction depth with
  | zero =>
    intro s v rest h
    exact Nat.le_trans (shrinks_parseAt (by simp) h) (length_skipWs_le s)
  | succ depth ih =>
    intro s v rest h
    refine Nat.le_trans (shrinks_parseAt (fun pv hpv => ?_) h) (length_skipWs_le s)
    cases hpv
    exact ih

theorem parseValue_nil (depth : ℕ) : parseValue depth [] = none := by
  cases depth <;> rfl

/-- Inside an array, a larger budget changes nothing. -/
theorem parseArray_budget (depth : ℕ) {fuel : ℕ} {s : Bytes} (h : s.length ≤ fuel) :
    parseSeparated (parseValue depth) (ch ']') fuel s =
      parseSeparated (parseValue depth) (ch ']') s.length s :=
  parseSeparated_budget (shrinks_parseValue depth) (parseValue_nil depth) h

/-- Inside an object, a larger budget changes nothing. -/
theorem parseObject_budget (depth : ℕ) {fuel : ℕ} {s : Bytes} (h : s.length ≤ fuel) :
    parseSeparated (parseMember (parseValue depth)) (ch '\x7d') fuel s =
      parseSeparated (parseMember (parseValue depth)) (ch '\x7d') s.length s :=
  parseSeparated_budget (shrinks_parseMember (shrinks_parseValue depth)) (parseMember_nil _) h

end FrostlakeOdbc
