import FrostlakeOdbc.JsonProof

/-!
# A text and its prefixes

What the parser reads from a text it reads from every longer text, unless it stopped at the end of
the text inside a number. So an object and a proper prefix of it cannot both be read, and different
things cannot be read from a text and a prefix of it (`flJsonParse_extend`).
-/

namespace FrostlakeOdbc

open CString JsonText

/-- What `p` reads with something left over, or as a `closed` value, it reads from every longer
text. -/
def Extends {β : Type} (closed : β → Prop) (p : Bytes → Option (β × Bytes)) : Prop :=
  ∀ {s r : Bytes} {v : β}, p s = some (v, r) → (r ≠ [] ∨ closed v) →
    ∀ x, p (s ++ x) = some (v, r ++ x)

theorem parseHex4_extend {s r : Bytes} {n : ℕ} (h : parseHex4 s = some (n, r)) (x : Bytes) :
    parseHex4 (s ++ x) = some (n, r ++ x) := by
  obtain ⟨a, b, c, d, va, vb, vc, vd, rfl, hdigits⟩ := parseHex4_eq_some_iff.1 h
  exact parseHex4_eq_some_iff.2 ⟨a, b, c, d, va, vb, vc, vd, rfl, hdigits⟩

/-- A `\u` escape that is cut off ends the string with a failure. -/
theorem parseStringBody_cut {r : Bytes} (hr : r <+: [ch '\\', ch 'u'] ∨
    ∃ t, r = ch '\\' :: ch 'u' :: t ∧ t.length < 4) : parseStringBody r = none := by
  rcases hr with hr | ⟨t, rfl, ht⟩
  · have : r = [] ∨ r = [ch '\\'] ∨ r = [ch '\\', ch 'u'] := by
      rcases r with _ | ⟨a, _ | ⟨b, _ | ⟨c, r⟩⟩⟩
      · exact Or.inl rfl
      · exact Or.inr (Or.inl (by simpa using hr))
      · exact Or.inr (Or.inr (by simpa using hr))
      · have := hr.length_le
        simp at this
    rcases this with rfl | rfl | rfl <;> rfl
  · have hhex : parseHex4 t = none := by
      rw [Option.eq_none_iff_forall_ne_some]
      rintro ⟨n, r⟩ h
      have := length_parseHex4 h
      omega
    have hitem : parseStringItem (ch '\\') (ch 'u' :: t) = none := by
      show parseUnicode t = none
      rw [parseUnicode, hhex]
      rfl
    rw [Option.eq_none_iff_forall_ne_some]
    rintro ⟨u, r⟩ h
    obtain ⟨c, s', heq, ⟨hc, -⟩ | ⟨-, d, r', t', hd, -⟩⟩ := parseStringBody_eq_some_iff.1 h
    · cases heq
      exact absurd hc (by decide)
    · cases heq
      rw [hitem] at hd
      cases hd

/-- Where the string goes on and ends, whether a `\u` escape is next can be seen already. -/
theorem opensPair_extend {cp : ℕ} {r : Bytes} {t : Bytes × Bytes}
    (h : parseStringBody r = some t) (x : Bytes) : opensPair cp (r ++ x) = opensPair cp r := by
  rw [Bool.eq_iff_iff, opensPair_eq_true_iff, opensPair_eq_true_iff]
  refine and_congr_right fun _ => ?_
  constructor
  · rintro ⟨-, htake⟩
    rcases r with _ | ⟨a, _ | ⟨b, r⟩⟩
    · cases h
    · have ha : a = ch '\\' := by
        simp only [List.cons_append, List.take_succ_cons, List.cons.injEq] at htake
        exact htake.1
      subst ha
      cases h
    · simp only [List.cons_append, List.take_succ_cons, List.take_zero, List.cons.injEq,
        and_true] at htake
      obtain ⟨rfl, rfl⟩ := htake
      refine ⟨?_, rfl⟩
      by_contra hlt
      rw [parseStringBody_cut (Or.inr ⟨r, rfl, by simp only [List.length_cons] at hlt; omega⟩)] at h
      cases h
  · rintro ⟨hlen, htake⟩
    refine ⟨by rw [List.length_append]; omega, ?_⟩
    rw [List.take_append_of_le_length (by omega), htake]

theorem parseStringItem_extend {c : UInt8} {s d r : Bytes} {t : Bytes × Bytes}
    (h : parseStringItem c s = some (d, r)) (ht : parseStringBody r = some t) (x : Bytes) :
    parseStringItem c (s ++ x) = some (d, r ++ x) := by
  rcases parseStringItem_eq_some_iff.1 h with ⟨hc, rfl, rfl⟩ | ⟨hc, esc, b, rfl, hb, rfl⟩ |
    ⟨hc, u, rfl, hu⟩
  · exact parseStringItem_eq_some_iff.2 (Or.inl ⟨hc, rfl, rfl⟩)
  · exact parseStringItem_eq_some_iff.2 (Or.inr (Or.inl ⟨hc, esc, b, rfl, hb, rfl⟩))
  · refine parseStringItem_eq_some_iff.2 (Or.inr (Or.inr ⟨hc, u ++ x, rfl, ?_⟩))
    obtain ⟨cp, u', hu', ⟨hp, low, hl, rfl⟩ | ⟨hp, rfl, rfl⟩⟩ := parseUnicode_eq_some_iff.1 hu
    · obtain ⟨hcp, hlen, htake⟩ := opensPair_eq_true_iff.1 hp
      refine parseUnicode_eq_some_iff.2
        ⟨cp, u' ++ x, parseHex4_extend hu' x, Or.inl ⟨?_, low, ?_, rfl⟩⟩
      · refine opensPair_eq_true_iff.2 ⟨hcp, by rw [List.length_append]; omega, ?_⟩
        rw [List.take_append_of_le_length (by omega), htake]
      · rw [List.drop_append_of_le_length (by omega)]
        exact parseHex4_extend hl x
    · refine parseUnicode_eq_some_iff.2
        ⟨cp, r ++ x, parseHex4_extend hu' x, Or.inr ⟨?_, rfl, rfl⟩⟩
      rw [opensPair_extend ht, hp]

theorem parseStringBody_extend {s t r : Bytes} (h : parseStringBody s = some (t, r)) (x : Bytes) :
    parseStringBody (s ++ x) = some (t, r ++ x) := by
  induction hn : s.length using Nat.strongRecOn generalizing s t with
  | ind n ih =>
    subst hn
    obtain ⟨c, s', rfl, ⟨rfl, rfl, rfl⟩ | ⟨hc, d, u, t', hd, ht, rfl⟩⟩ :=
      parseStringBody_eq_some_iff.1 h
    · exact parseStringBody_quote _
    · have hlen := length_parseStringItem hd
      have := ih u.length (by simp only [List.length_cons]; omega) ht rfl
      exact parseStringBody_eq_some_iff.2
        ⟨c, s' ++ x, rfl, Or.inr ⟨hc, d, u ++ x, t', parseStringItem_extend hd ht x, this, rfl⟩⟩

/-! ## Arrays and objects -/

section

variable {β : Type} {item : Bytes → Option (β × Bytes)} {closed : β → Prop} {close : UInt8}

theorem parseSeparated_extend (hitem : Extends closed item) {fuel fuel' : ℕ} {s r : Bytes}
    {xs : List β} (h : parseSeparated item close fuel s = some (xs, r)) (hf : fuel ≤ fuel')
    (x : Bytes) : parseSeparated item close fuel' (s ++ x) = some (xs, r ++ x) := by
  induction fuel generalizing fuel' s xs with
  | zero => cases h
  | succ fuel ih =>
    obtain ⟨fuel', rfl⟩ : ∃ n, fuel' = n + 1 := ⟨fuel' - 1, by omega⟩
    obtain ⟨y, u, c, u', hy, hc, h⟩ := parseSeparated_succ_eq_some_iff.1 h
    have hu : u ≠ [] := by
      rintro rfl
      cases hc
    have hy' := hitem hy (Or.inl hu) x
    refine parseSeparated_succ_eq_some_iff.2 ⟨y, u ++ x, c, u' ++ x, hy', skipWs_append hc x, ?_⟩
    rcases h with ⟨hcomma, ys, hys, rfl⟩ | ⟨hne, hclose, rfl, rfl⟩
    · exact Or.inl ⟨hcomma, ys, ih hys (by omega), rfl⟩
    · exact Or.inr ⟨hne, hclose, rfl, rfl⟩

theorem parseList_extend (hitem : Extends closed item) {s r : Bytes} {xs : List β}
    (h : parseList item close s = some (xs, r)) (x : Bytes) :
    parseList item close (s ++ x) = some (xs, r ++ x) := by
  obtain ⟨c, u, hc, ⟨hclose, rfl, rfl⟩ | ⟨hne, h⟩⟩ := parseList_eq_some_iff.1 h
  · exact parseList_eq_some_iff.2 ⟨c, r ++ x, skipWs_append hc x, Or.inl ⟨hclose, rfl, rfl⟩⟩
  · refine parseList_eq_some_iff.2 ⟨c, u ++ x, skipWs_append hc x, Or.inr ⟨hne, ?_⟩⟩
    refine parseSeparated_extend hitem h ?_ x
    simp only [List.length_cons, List.length_append]
    omega

end

theorem parseKey_extend {s k r : Bytes} (h : parseKey s = some (k, r)) (x : Bytes) :
    parseKey (s ++ x) = some (k, r ++ x) := by
  obtain ⟨u, u', h₁, h₂, h₃⟩ := parseKey_eq_some_iff.1 h
  exact parseKey_eq_some_iff.2
    ⟨u ++ x, u' ++ x, skipWs_append h₁ x, parseStringBody_extend h₂ x, skipWs_append h₃ x⟩

theorem extends_parseMember {closed : Value → Prop} {pv : ValueParser} (hpv : Extends closed pv) :
    Extends (fun m => closed m.2) (parseMember pv) := by
  intro s r m h hr x
  obtain ⟨u, hk, hv⟩ := parseMember_eq_some_iff.1 h
  exact parseMember_eq_some_iff.2 ⟨u ++ x, parseKey_extend hk x, hpv hv hr x⟩

/-! ## Values -/

/-- A value whose last byte closes it: everything but a number. -/
def Closed (v : Value) : Prop := ∀ lexeme, v ≠ .number lexeme

theorem parseNumber_extend {s r : Bytes} {v : Value} (h : parseNumber s = some (v, r)) (hr : r ≠ [])
    (x : Bytes) : parseNumber (s ++ x) = some (v, r ++ x) := by
  obtain ⟨hne, rfl, rfl⟩ := parseNumber_eq_some_iff.1 h
  have htake : (s ++ x).takeWhile isNumberByte = s.takeWhile isNumberByte := by
    rw [List.takeWhile_append, if_neg]
    intro hlen
    have := congrArg List.length (List.takeWhile_append_dropWhile (p := isNumberByte) (l := s))
    rw [List.length_append, hlen] at this
    exact hr (List.length_eq_zero_iff.1 (by omega))
  have hdrop : (s ++ x).dropWhile isNumberByte = s.dropWhile isNumberByte ++ x := by
    rw [List.dropWhile_append, if_neg]
    simpa using hr
  exact parseNumber_eq_some_iff.2 ⟨by rwa [htake], by rw [htake], hdrop.symm⟩

/-- Text behind the first byte is text behind what follows it. -/
theorem drop_one_append {β : Type} {p : Bytes → Option β} (hnil : p [] = none) {s : Bytes} {v : β}
    (h : p (s.drop 1) = some v) (x : Bytes) : (s ++ x).drop 1 = s.drop 1 ++ x := by
  cases s with
  | nil =>
    rw [List.drop_nil, hnil] at h
    cases h
  | cons c s => rfl

theorem extends_parserAt {nested : Option ValueParser}
    (hn : ∀ pv, nested = some pv → Extends Closed pv) (c : UInt8) :
    Extends Closed (parserAt nested c) := by
  refine parserAt_induction (P := fun p => Extends Closed p) c ?_ ?_ ?_ ?_ ?_
  · intro s r v h _ x
    obtain ⟨pv, hpv, h⟩ := Option.bind_eq_some_iff.1 h
    obtain ⟨ms, hms, rfl⟩ := parseObject_eq_some_iff.1 h
    refine Option.bind_eq_some_iff.2 ⟨pv, hpv, parseObject_eq_some_iff.2 ⟨ms, ?_, rfl⟩⟩
    rw [drop_one_append (by rfl) hms]
    exact parseList_extend (extends_parseMember (hn pv hpv)) hms x
  · intro s r v h _ x
    obtain ⟨pv, hpv, h⟩ := Option.bind_eq_some_iff.1 h
    obtain ⟨vs, hvs, rfl⟩ := parseArray_eq_some_iff.1 h
    refine Option.bind_eq_some_iff.2 ⟨pv, hpv, parseArray_eq_some_iff.2 ⟨vs, ?_, rfl⟩⟩
    rw [drop_one_append (by rfl) hvs]
    exact parseList_extend (hn pv hpv) hvs x
  · intro s r v h _ x
    obtain ⟨t, ht, rfl⟩ := parseString_eq_some_iff.1 h
    refine parseString_eq_some_iff.2 ⟨t, ?_, rfl⟩
    rw [drop_one_append (by rfl) ht]
    exact parseStringBody_extend ht x
  · intro word node s r v h _ x
    obtain ⟨rfl, rfl⟩ := parseLiteral_eq_some_iff.1 h
    exact parseLiteral_eq_some_iff.2 ⟨List.append_assoc _ _ _, rfl⟩
  · intro s r v h hr x
    rcases hr with hr | hclosed
    · exact parseNumber_extend h hr x
    · obtain ⟨-, rfl, -⟩ := parseNumber_eq_some_iff.1 h
      exact absurd rfl (hclosed _)

theorem parseAt_skipWs_cons {nested : Option ValueParser} {s r : Bytes} {v : Value}
    (h : parseAt nested (skipWs s) = some (v, r)) :
    ∃ c u, skipWs s = c :: u ∧ parserAt nested c (c :: u) = some (v, r) := by
  cases hs : skipWs s with
  | nil =>
    rw [hs] at h
    cases h
  | cons c u =>
    rw [hs] at h
    exact ⟨c, u, rfl, h⟩

theorem extends_parseValue (n : ℕ) : Extends Closed (parseValue n) := by
  induction n with
  | zero =>
    intro s r v h hr x
    rw [parseValue_eq] at h
    obtain ⟨c, u, hc, h⟩ := parseAt_skipWs_cons h
    rw [parseValue_eq, skipWs_append hc]
    exact extends_parserAt (fun pv hpv => by cases hpv) c h hr x
  | succ n ih =>
    intro s r v h hr x
    rw [parseValue_eq] at h
    obtain ⟨c, u, hc, h⟩ := parseAt_skipWs_cons h
    rw [parseValue_eq, skipWs_append hc]
    refine extends_parserAt (fun pv hpv => ?_) c h hr x
    cases hpv
    exact ih

/-- Where an object or nothing can be read from a text, a prefix of it gives the same object or
nothing. -/
theorem flJsonParse_extend {s x u : Bytes} {v v' : Value} (hs : skipWs (s ++ x) = ch '\x7b' :: u)
    (h : flJsonParse (s ++ x) = some v) (h' : flJsonParse s = some v') : v' = v := by
  obtain ⟨⟨w', r'⟩, hw', hr'⟩ := Option.bind_eq_some_iff.1 h'
  obtain ⟨⟨w, r⟩, hw, hr⟩ := Option.bind_eq_some_iff.1 h
  obtain rfl : w' = v' := by
    dsimp only at hr'
    split at hr' <;> cases hr'
    rfl
  obtain rfl : w = v := by
    dsimp only at hr
    split at hr <;> cases hr
    rfl
  have hclosed : Closed w' := by
    have hat := hw'
    rw [parseValue_eq] at hat
    obtain ⟨c, t, hc, hat⟩ := parseAt_skipWs_cons hat
    rw [skipWs_append hc] at hs
    obtain ⟨rfl, -⟩ := List.cons.inj hs
    rw [parserAt, if_pos rfl] at hat
    obtain ⟨pv, -, hobj⟩ := Option.bind_eq_some_iff.1 hat
    obtain ⟨ms, -, rfl⟩ := parseObject_eq_some_iff.1 hobj
    exact fun lexeme he => by cases he
  have hext := extends_parseValue jsonMaxDepth hw' (Or.inr hclosed) x
  rw [hw] at hext
  cases hext
  rfl

end FrostlakeOdbc
