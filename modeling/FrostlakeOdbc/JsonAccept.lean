import FrostlakeOdbc.JsonProof
import FrostlakeOdbc.Lib.Utf8

/-!
# What the JSON parser reads, exactly

The parser reads the texts of a grammar that is JSON's but for its leaves
(`flJsonParse_eq_some_iff`): a number is any run of number bytes, and a string may hold any byte but
a quote and a backslash. So it reads every JSON text that is nested no deeper than its limit, and
what it accepts is JSON unless a leaf is not.
-/

namespace FrostlakeOdbc

open CString JsonText

/-! ## Strings -/

/-- The string parser reads `t` from the body `b`. -/
def Reads (t b : Bytes) : Prop := ∀ rest, parseStringBody (b ++ ch '"' :: rest) = some (t, rest)

theorem shortEscape_of_unescape {e b : UInt8} (h : unescape e = some b) :
    ∃ c, shortEscape e = some c := by
  have hsome : (unescape e).isSome = true := by rw [h]; rfl
  apply Option.isSome_iff_exists.1
  revert hsome
  apply forall_byte (P := fun e => (unescape e).isSome = true → (shortEscape e).isSome = true)
  decide +kernel

theorem hex4_of_parseHex4 {n : ℕ} {s r : Bytes} (h : parseHex4 s = some (n, r)) :
    ∃ t, s = t ++ r ∧ Hex4 n t := by
  obtain ⟨a, b, c, d, va, vb, vc, vd, rfl, ha, hb, hc, hd, rfl⟩ := parseHex4_eq_some_iff.1 h
  simp only [hexDigit_eq_digitValue] at ha hb hc hd
  exact ⟨[a, b, c, d], rfl, a, b, c, d, va, vb, vc, vd, rfl, ha, hb, hc, hd, rfl⟩

/-- What the `\u` case reads is one escape, or two. -/
theorem looseBody_of_parseUnicode {s d r : Bytes} (h : parseUnicode s = some (d, r)) :
    ∃ t, s = t ++ r ∧ ∀ {u}, LooseBody u → LooseBody (ch '\\' :: ch 'u' :: (t ++ u)) := by
  obtain ⟨cp, x, hx, ⟨hp, low, hl, -⟩ | ⟨-, -, rfl⟩⟩ := parseUnicode_eq_some_iff.1 h
  · obtain ⟨t, rfl, ht⟩ := hex4_of_parseHex4 hx
    obtain ⟨y, hy, hlow⟩ := hex4_of_parseHex4 hl
    have hsplit : x = ch '\\' :: ch 'u' :: (y ++ r) := by
      rw [← List.take_append_drop 2 x, (opensPair_eq_true_iff.1 hp).2.2, hy]
      rfl
    refine ⟨t ++ ch '\\' :: ch 'u' :: y, by simp [hsplit], fun {u} hu => ?_⟩
    have := LooseBody.hex ht (LooseBody.hex hlow hu)
    simpa using this
  · obtain ⟨t, rfl, ht⟩ := hex4_of_parseHex4 hx
    exact ⟨t, rfl, fun hu => .hex ht hu⟩

theorem looseBody_of_parseStringBody {s t r : Bytes} (h : parseStringBody s = some (t, r)) :
    ∃ b, s = b ++ ch '"' :: r ∧ LooseBody b := by
  induction hn : s.length using Nat.strongRecOn generalizing s t with
  | ind n ih =>
    subst hn
    obtain ⟨c, s', rfl, ⟨rfl, -, rfl⟩ | ⟨hc, d, x, t', hd, ht, -⟩⟩ :=
      parseStringBody_eq_some_iff.1 h
    · exact ⟨[], rfl, .nil⟩
    · have hlen := length_parseStringItem hd
      obtain ⟨b, rfl, hb⟩ := ih x.length (by simp only [List.length_cons]; omega) ht rfl
      rcases parseStringItem_eq_some_iff.1 hd with ⟨hne, -, rfl⟩ | ⟨rfl, e, v, rfl, he, -⟩ |
        ⟨rfl, u, rfl, hu⟩
      · exact ⟨c :: b, rfl, .raw hc hne hb⟩
      · obtain ⟨k, hk⟩ := shortEscape_of_unescape he
        exact ⟨ch '\\' :: e :: b, rfl, .short hk hb⟩
      · obtain ⟨y, rfl, hy⟩ := looseBody_of_parseUnicode hu
        exact ⟨ch '\\' :: ch 'u' :: (y ++ b), by simp, hy hb⟩

/-- The bodies the string parser reads are those whose escapes are legal. -/
theorem parseStringBody_iff {s t r : Bytes} :
    parseStringBody s = some (t, r) ↔ ∃ b, s = b ++ ch '"' :: r ∧ Reads t b := by
  constructor
  · intro h
    obtain ⟨b, rfl, hb⟩ := looseBody_of_parseStringBody h
    obtain ⟨t', ht'⟩ := exists_parseStringBody hb
    rw [ht'] at h
    cases h
    exact ⟨b, rfl, ht'⟩
  · rintro ⟨b, rfl, hb⟩
    exact hb r

theorem Reads.loose {t b : Bytes} (h : Reads t b) : LooseBody b := by
  obtain ⟨b', heq, hb'⟩ := looseBody_of_parseStringBody (h [])
  rw [List.append_cancel_right heq]
  exact hb'

theorem delimited_reads : Delimited Reads := by
  intro t b r t' b' r' h h' heq
  have hread := h r
  rw [heq, h' r'] at hread
  cases hread
  exact ⟨rfl, List.append_cancel_right heq⟩

/-! ## Lists of items -/

theorem exists_ws (s : Bytes) : ∃ a, Ws a ∧ s = a ++ skipWs s :=
  ⟨s.takeWhile isWs, fun _ h => List.mem_takeWhile_imp h, (List.takeWhile_append_dropWhile).symm⟩

/-- `p` reads nothing but what `item` spells. -/
def Sound {β : Type} (p : Bytes → Option (β × Bytes)) (item : β → Bytes → Prop) : Prop :=
  ∀ {s r : Bytes} {x : β}, p s = some (x, r) → ∃ t, s = t ++ r ∧ item x t

section

variable {β : Type} {p : Bytes → Option (β × Bytes)} {close : UInt8} {item : β → Bytes → Prop}

theorem parseSeparated_sound (hp : Sound p item)
    (hpad : ∀ x s b, item x s → Ws b → item x (s ++ b)) {fuel : ℕ} {s r : Bytes} {xs : List β}
    (h : parseSeparated p close fuel s = some (xs, r)) :
    ∃ body, s = body ++ close :: r ∧ Separated item xs body := by
  induction fuel generalizing s xs with
  | zero => cases h
  | succ fuel ih =>
    obtain ⟨x, u, c, u', hx, hc, hrest⟩ := parseSeparated_succ_eq_some_iff.1 h
    obtain ⟨t, rfl, ht⟩ := hp hx
    obtain ⟨b, hb, hu⟩ := exists_ws u
    rw [hc] at hu
    have ht := hpad x t b ht hb
    rcases hrest with ⟨rfl, ys, hys, rfl⟩ | ⟨-, rfl, rfl, rfl⟩
    · obtain ⟨body, rfl, hbody⟩ := ih hys
      exact ⟨(t ++ b) ++ ch ',' :: body, by simp [hu], .cons ht hbody⟩
    · exact ⟨t ++ b, by simp [hu], .one ht⟩

theorem parseList_sound (hws : ∀ s, p (skipWs s) = p s) (hp : Sound p item)
    (hpad : ∀ x s b, item x s → Ws b → item x (s ++ b)) {s r : Bytes} {xs : List β}
    (h : parseList p close s = some (xs, r)) :
    ∃ body, s = body ++ close :: r ∧ (xs = [] ∧ Ws body ∨ Separated item xs body) := by
  obtain ⟨c, u, hc, ⟨rfl, rfl, rfl⟩ | ⟨-, h⟩⟩ := parseList_eq_some_iff.1 h
  · obtain ⟨a, ha, hs⟩ := exists_ws s
    rw [hc] at hs
    exact ⟨a, hs, Or.inl ⟨rfl, ha⟩⟩
  · rw [← hc, parseSeparated_skipWs hws] at h
    obtain ⟨body, hs, hbody⟩ := parseSeparated_sound hp hpad h
    exact ⟨body, hs, Or.inr hbody⟩

end

/-! ## Values -/

theorem padded_append_ws {P : Bytes → Prop} {s b : Bytes} (h : Padded P s) (hb : Ws b) :
    Padded P (s ++ b) := by
  obtain ⟨a, t, b', ha, ht, hb', rfl⟩ := h
  refine ⟨a, t, b' ++ b, ha, ht, ?_, by simp⟩
  exact List.forall_mem_append.2 ⟨hb', hb⟩

theorem member_append_ws {str : Bytes → Bytes → Prop} {P : Value → Bytes → Prop} {m : Bytes × Value}
    {s b : Bytes} (h : Member str P m s) (hb : Ws b) : Member str P m (s ++ b) := by
  obtain ⟨a, key, c, t, ha, hk, hc, ht, rfl⟩ := h
  exact ⟨a, key, c, t ++ b, ha, hk, hc, padded_append_ws ht hb, by simp⟩

theorem parseMember_sound {pv : ValueParser} {P : Value → Bytes → Prop}
    (hpv : Sound pv fun v => Padded (P v)) : Sound (parseMember pv) (Member Reads P) := by
  intro s r m h
  obtain ⟨u, hk, hv⟩ := parseMember_eq_some_iff.1 h
  obtain ⟨x, y, hx, hkey, hy⟩ := parseKey_eq_some_iff.1 hk
  obtain ⟨key, rfl, hread⟩ := parseStringBody_iff.1 hkey
  obtain ⟨t, rfl, ht⟩ := hpv hv
  obtain ⟨a, ha, hs⟩ := exists_ws s
  obtain ⟨b, hb, hcolon⟩ := exists_ws y
  rw [hx] at hs
  rw [hy] at hcolon
  refine ⟨a ++ (quoted key ++ (b ++ ch ':' :: t)), ?_, a, key, b, t, ha, hread, hb, ht, rfl⟩
  simp [hs, hcolon, quoted]

/-- One level of `parseValue_sound`. -/
theorem parseAt_sound {n : ℕ} (nested : ∀ m, n = m + 1 →
      Sound (parseValue m) fun v => Padded (SpellsWith LooseNumber Reads m v)) :
    Sound (parseAt (nestedParser n)) (SpellsWith LooseNumber Reads n) := by
  intro s r v h
  cases s with
  | nil => cases h
  | cons c s =>
    have h : parserAt (nestedParser n) c (c :: s) = some (v, r) := h
    unfold parserAt at h
    split_ifs at h with h₁ h₂ h₃ h₄ h₅ h₆
    · obtain ⟨pv, hpv, h⟩ := Option.bind_eq_some_iff.1 h
      obtain ⟨ms, hms, rfl⟩ := parseObject_eq_some_iff.1 h
      cases n with
      | zero => cases hpv
      | succ n =>
        cases hpv
        obtain ⟨body, hs, hbody⟩ := parseList_sound (parseMember_skipWs _)
          (parseMember_sound (nested n rfl)) (fun _ _ _ h hb => member_append_ws h hb) hms
        rw [List.drop_one, List.tail_cons] at hs
        exact ⟨ch '\x7b' :: (body ++ [ch '\x7d']), by simp [h₁, hs], body, rfl, hbody⟩
    · obtain ⟨pv, hpv, h⟩ := Option.bind_eq_some_iff.1 h
      obtain ⟨vs, hvs, rfl⟩ := parseArray_eq_some_iff.1 h
      cases n with
      | zero => cases hpv
      | succ n =>
        cases hpv
        obtain ⟨body, hs, hbody⟩ := parseList_sound (parseValue_skipWs _) (nested n rfl)
          (fun _ _ _ h hb => padded_append_ws h hb) hvs
        rw [List.drop_one, List.tail_cons] at hs
        exact ⟨ch '[' :: (body ++ [ch ']']), by simp [h₂, hs], body, rfl, hbody⟩
    · obtain ⟨t, ht, rfl⟩ := parseString_eq_some_iff.1 h
      obtain ⟨b, hs, hb⟩ := parseStringBody_iff.1 ht
      rw [List.drop_one, List.tail_cons] at hs
      exact ⟨quoted b, by simp [quoted, h₃, hs], spellsWith_string_iff.2 ⟨b, hb, rfl⟩⟩
    · obtain ⟨hs, rfl⟩ := parseLiteral_eq_some_iff.1 h
      exact ⟨lit "true", hs, spellsWith_bool_iff.2 rfl⟩
    · obtain ⟨hs, rfl⟩ := parseLiteral_eq_some_iff.1 h
      exact ⟨lit "false", hs, spellsWith_bool_iff.2 rfl⟩
    · obtain ⟨hs, rfl⟩ := parseLiteral_eq_some_iff.1 h
      exact ⟨lit "null", hs, spellsWith_null_iff.2 rfl⟩
    · obtain ⟨hne, rfl, rfl⟩ := parseNumber_eq_some_iff.1 h
      refine ⟨_, List.takeWhile_append_dropWhile.symm, spellsWith_number_iff.2 ⟨⟨hne, ?_⟩, rfl⟩⟩
      exact fun _ h => List.mem_takeWhile_imp h

/-- What is read as a value is a spelling of it. -/
theorem parseValue_sound (n : ℕ) :
    Sound (parseValue n) fun v => Padded (SpellsWith LooseNumber Reads n v) := by
  have skipped : ∀ n, Sound (parseAt (nestedParser n)) (SpellsWith LooseNumber Reads n) →
      Sound (parseValue n) fun v => Padded (SpellsWith LooseNumber Reads n v) := by
    intro n hat s r v h
    rw [parseValue_eq] at h
    obtain ⟨t, hs, ht⟩ := hat h
    obtain ⟨a, ha, hskip⟩ := exists_ws s
    rw [hs] at hskip
    exact ⟨a ++ t, by simp [hskip], a, t, [], ha, ht, ws_nil, by simp⟩
  induction n with
  | zero =>
    apply skipped
    exact parseAt_sound fun m hm => by cases hm
  | succ n ih =>
    apply skipped
    apply parseAt_sound
    intro m hm
    cases hm
    exact ih

/-- The parser reads the texts of its grammar, and nothing else. -/
theorem flJsonParse_eq_some_iff {s : Bytes} {v : Value} :
    flJsonParse s = some v ↔ Padded (SpellsWith LooseNumber Reads jsonMaxDepth v) s := by
  constructor
  · intro h
    obtain ⟨⟨w, r⟩, hw, hr⟩ := Option.bind_eq_some_iff.1 h
    dsimp only at hr
    split at hr
    · next hskip =>
      cases hr
      obtain ⟨b, hb, hr⟩ := exists_ws r
      rw [hskip, List.append_nil] at hr
      obtain ⟨t, rfl, ht⟩ := parseValue_sound jsonMaxDepth hw
      rw [hr]
      exact padded_append_ws ht hb
    · cases hr
  · exact flJsonParse_spellsWith (fun _ h => h) fun _ _ h => h

/-! ## Every JSON text -/

/-- The body `b` spells the UTF-8 text `t` of some code points, none of them U+0000. -/
def PlainText (t b : Bytes) : Prop := ∃ cs, '\x00' ∉ cs ∧ t = utf8 cs ∧ StringText cs b

/-- A legal JSON text of a value, however deep the value nests. -/
def IsTextOf (v : Value) (s : Bytes) : Prop := ∃ n, Padded (Spells PlainText n v) s

theorem PlainText.reads {t b : Bytes} (h : PlainText t b) : Reads t b := by
  obtain ⟨cs, -, rfl, hb⟩ := h
  exact fun rest => parseStringBody_stringText hb rest

/-- The parser's grammar has every JSON text. -/
theorem IsTextOf.spellsWith {v : Value} {s : Bytes} (h : IsTextOf v s) :
    ∃ n, Padded (SpellsWith LooseNumber Reads n v) s := by
  obtain ⟨n, hs⟩ := h
  rw [spells_eq] at hs
  refine ⟨n, hs.imp fun t ht => ?_⟩
  have hall : Leaves Number (fun _ => True) v :=
    ht.leaves (fun _ hnum => hnum) (fun _ _ _ => trivial)
  exact ht.of_leaves (fun _ hnum _ => hnum.loose) (fun _ _ hb _ => hb.reads) hall

/-- `fl_json_parse` reads every legal text of a value that nests at most 64 deep, and only these,
and the tree it returns is the value. -/
theorem flJsonParse_complete {v : Value} {s : Bytes} (h : IsTextOf v s) :
    ((flJsonParse s).isSome = true ↔ NestsWithin 64 v) ∧
      ∀ tree, flJsonParse s = some tree → tree = v := by
  obtain ⟨n, hs⟩ := h.spellsWith
  have htree : ∀ tree, flJsonParse s = some tree → tree = v := by
    intro tree htree
    have htext := flJsonParse_eq_some_iff.1 htree
    exact SpellsWith.unique (fun _ hnum => hnum) delimited_reads htext hs
  refine ⟨?_, htree⟩
  constructor
  · intro hsome
    obtain ⟨tree, hp⟩ := Option.isSome_iff_exists.1 hsome
    obtain rfl := htree tree hp
    obtain ⟨a, t, b, -, ht, -⟩ := flJsonParse_eq_some_iff.1 hp
    exact ht.nestsWithin
  · intro hn
    have hp : flJsonParse s = some v :=
      flJsonParse_eq_some_iff.2 (hs.imp fun t ht => ht.of_nestsWithin hn)
    rw [hp]
    rfl

/-- An array of an emoji, written as two surrogates, and a number. -/
theorem flJsonParse_complete_pair :
    flJsonParse (lit "[\"\\ud83D\\uDE00\", -1.5]") =
      some (.array [.string (utf8 ['😀']), .number (lit "-1.5")]) := by
  have hhigh : Hex4 (0xD800 + ('😀'.toNat - 0x10000) / 0x400) (lit "d83D") :=
    ⟨ch 'd', ch '8', ch '3', ch 'D', 13, 8, 3, 13, by decide⟩
  have hlow : Hex4 (0xDC00 + ('😀'.toNat - 0x10000) % 0x400) (lit "DE00") :=
    ⟨ch 'D', ch 'E', ch '0', ch '0', 13, 14, 0, 0, by decide⟩
  have hpair : CharText '😀' (lit "\\ud83D\\uDE00") := .pair (by decide) hhigh hlow
  have hstring : PlainText (utf8 ['😀']) (lit "\\ud83D\\uDE00") :=
    ⟨['😀'], by decide, rfl, .cons hpair .nil⟩
  have hnumber : Number (lit "-1.5") := by
    refine ⟨⟨lit "-", lit "1", lit ".5", [], by decide, Or.inr rfl, ?_, Or.inr ?_, Or.inl rfl⟩⟩
    · exact ⟨⟨by decide, forall_mem_of_all (by decide)⟩, by decide⟩
    · exact ⟨lit "5", ⟨by decide, forall_mem_of_all (by decide)⟩, rfl⟩
  have hfirst : Padded (Spells PlainText 0 (.string (utf8 ['😀']))) (lit "\"\\ud83D\\uDE00\"") :=
    .self ⟨_, hstring, rfl⟩
  have hsecond : Padded (Spells PlainText 0 (.number (lit "-1.5"))) (lit " -1.5") :=
    ⟨lit " ", lit "-1.5", [], by unfold Ws; exact forall_mem_of_all (by decide), ⟨hnumber, rfl⟩, ws_nil, rfl⟩
  have htext : IsTextOf (.array [.string (utf8 ['😀']), .number (lit "-1.5")])
      (lit "[\"\\ud83D\\uDE00\", -1.5]") :=
    ⟨1, Padded.self ⟨_, rfl, Or.inr (.cons hfirst (.one hsecond))⟩⟩
  obtain ⟨haccepts, hread⟩ := flJsonParse_complete htext
  have hnests : NestsWithin 64 (.array [.string (utf8 ['😀']), .number (lit "-1.5")]) := by
    simp [NestsWithin]
  obtain ⟨tree, htree⟩ := Option.isSome_iff_exists.1 (haccepts.2 hnests)
  rw [← hread tree htree]
  exact htree

/-! ## Nothing but JSON texts? -/

/-- A JSON text as RFC 8259 has it: UTF-8, and of the grammar. -/
def IsJsonText (s : Bytes) : Prop :=
  Utf8.WellFormed s ∧ ∃ n v, Padded (Spells (fun _ b => StringBody b) n v) s

/-- `b` is written between the quotes. -/
def Written (t b : Bytes) : Prop := t = b ∧ LooseBody b

/-- A text that is JSON up to its leaves, nested at most 64 deep. The tree `w` shows its numbers and
its strings as they are written: a number may be any run of number bytes, and in a string every byte
but the quote and the backslash may stand for itself. -/
def IsLaxText (w : Value) (s : Bytes) : Prop := Padded (SpellsWith LooseNumber Written 64 w) s

/-- The leaves of the tree are legal: its numbers are JSON's, and no control character stands in its
strings. -/
def LegalLeaves (w : Value) : Prop := Leaves Number (fun b => ∀ c ∈ b, 0x20 ≤ c) w

theorem delimited_written : Delimited Written := by
  rintro t b r t' b' r' ⟨rfl, h⟩ ⟨rfl, h'⟩ heq
  obtain ⟨u, hu⟩ := exists_parseStringBody h
  obtain ⟨u', hu'⟩ := exists_parseStringBody h'
  obtain ⟨-, rfl⟩ := delimited_reads hu hu' heq
  exact ⟨rfl, rfl⟩

/-- The texts `fl_json_parse` accepts are those that are JSON up to their leaves. -/
theorem isSome_flJsonParse_iff {s : Bytes} :
    (flJsonParse s).isSome = true ↔ ∃ w, IsLaxText w s := by
  rw [Option.isSome_iff_exists]
  constructor
  · rintro ⟨v, hv⟩
    obtain ⟨a, t, b, ha, ht, hb, rfl⟩ := flJsonParse_eq_some_iff.1 hv
    obtain ⟨w, hw⟩ : ∃ w, SpellsWith LooseNumber Written 64 w t :=
      ht.choose (fun _ hnum => hnum) fun _ body hread => ⟨body, rfl, hread.loose⟩
    exact ⟨w, a, t, b, ha, hw, hb, rfl⟩
  · rintro ⟨w, a, t, b, ha, hw, hb, rfl⟩
    obtain ⟨v, hv⟩ : ∃ v, SpellsWith LooseNumber Reads 64 v t :=
      hw.choose (fun _ hnum => hnum) fun _ _ hbody => exists_parseStringBody hbody.2
    exact ⟨v, flJsonParse_eq_some_iff.2 ⟨a, t, b, ha, hv, hb, rfl⟩⟩

/-- The leaves of a JSON text are legal, whichever way it is read. -/
theorem IsJsonText.legalLeaves {w : Value} {s : Bytes} (hs : IsJsonText s) (hw : IsLaxText w s) :
    LegalLeaves w := by
  obtain ⟨-, n, v, hv⟩ := hs
  rw [spells_eq] at hv
  obtain ⟨a, t, b, ha, ht, hb, rfl⟩ := hv
  obtain ⟨w', hw'⟩ : ∃ w', SpellsWith Number (fun t b => t = b ∧ StringBody b) n w' t :=
    ht.choose (fun _ hnum => hnum) fun _ body hbody => ⟨body, rfl, hbody⟩
  have hlegal : LegalLeaves w' := by
    refine hw'.leaves (fun _ hnum => hnum) ?_
    rintro _ body ⟨rfl, hbody⟩
    exact (stringBody_iff.1 hbody).2
  have hlax : SpellsWith LooseNumber Written n w' t :=
    hw'.of_leaves (fun _ hnum _ => hnum.loose) (fun _ _ hbody _ => ⟨hbody.1, hbody.2.loose⟩) hlegal
  have heq : w = w' :=
    SpellsWith.unique (fun _ hnum => hnum) delimited_written hw ⟨a, t, b, ha, hlax, hb, rfl⟩
  rw [heq]
  exact hlegal

theorem isJsonText_of_legalLeaves {w : Value} {s : Bytes} (hs : Utf8.WellFormed s)
    (hw : IsLaxText w s) (hlegal : LegalLeaves w) : IsJsonText s := by
  refine ⟨hs, 64, w, ?_⟩
  rw [spells_eq]
  refine hw.imp fun t ht => ht.of_leaves (fun _ _ hnum => hnum) ?_ hlegal
  rintro _ body ⟨rfl, hbody⟩ hall
  exact stringBody_iff.2 ⟨hbody, hall⟩

/-- `fl_json_parse` accepts nothing but JSON texts just where the leaves of the text, if it is JSON
up to its leaves, are legal and the text is UTF-8. -/
theorem flJsonParse_sound_iff (s : Bytes) :
    ((flJsonParse s).isSome = true → IsJsonText s) ↔
      ∀ w, IsLaxText w s → Utf8.WellFormed s ∧ LegalLeaves w := by
  rw [isSome_flJsonParse_iff]
  constructor
  · intro h w hw
    have hs := h ⟨w, hw⟩
    exact ⟨hs.1, hs.legalLeaves hw⟩
  · rintro h ⟨w, hw⟩
    obtain ⟨hs, hlegal⟩ := h w hw
    exact isJsonText_of_legalLeaves hs hw hlegal

/-- A number with a plus sign is accepted. -/
theorem flJsonParse_plus :
    (flJsonParse (lit "+1")).isSome = true ∧ ¬IsJsonText (lit "+1") := by
  refine ⟨by decide, fun hs => ?_⟩
  have hlax : IsLaxText (.number (lit "+1")) (lit "+1") :=
    Padded.self (spellsWith_number_iff.2 ⟨by unfold LooseNumber; decide +kernel, rfl⟩)
  cases hs.legalLeaves hlax with
  | number hnum =>
    obtain ⟨c, rest, heq, hc⟩ := hnum.head
    obtain ⟨rfl, -⟩ := List.cons.inj heq
    revert hc
    decide

end FrostlakeOdbc
