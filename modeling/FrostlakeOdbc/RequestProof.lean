import Mathlib.Data.List.Forall2
import FrostlakeOdbc.JsonProof
import FrostlakeOdbc.Proto

/-!
# The request on the wire

The request `build_request_json` writes is read back by `fl_json_parse` as an object of exactly the
members it means. The writer's escapes are one way to spell a text, and the request is one spelling
of the object, so this is the completeness of the parser at that spelling.
-/

namespace FrostlakeOdbc

open CString JsonText

/-! ## The writer's escapes -/

theorem hexDigit_hexDigitLower : ∀ n < 16, hexDigit (hexDigitLower n) = some n := by decide

theorem hex4_escapeByte (c : UInt8) :
    Hex4 c.toNat [ch '0', ch '0', hexDigitLower (c.toNat / 16), hexDigitLower (c.toNat % 16)] := by
  have hlt := c.toNat_lt
  refine ⟨_, _, _, _, 0, 0, c.toNat / 16, c.toNat % 16, rfl, by decide, by decide, ?_, ?_, by omega⟩
  · rw [← hexDigit_eq_digitValue]
    exact hexDigit_hexDigitLower _ (by omega)
  · rw [← hexDigit_eq_digitValue]
    exact hexDigit_hexDigitLower _ (by omega)

/-- The escape of a byte is read back as the byte. -/
theorem parseStringBody_escapeByte (c : UInt8) (y : Bytes) :
    parseStringBody (escapeByte c ++ y) = (parseStringBody y).map (prependText [c]) := by
  unfold escapeByte
  split_ifs with h₁ h₂ h₃ h₄ h₅ h₆ h₇ h₈
  · rw [h₁]
    exact parseStringBody_escape (by decide) y
  · rw [h₂]
    exact parseStringBody_escape (by decide) y
  · rw [h₃]
    exact parseStringBody_escape (by decide) y
  · rw [h₄]
    exact parseStringBody_escape (by decide) y
  · rw [h₅]
    exact parseStringBody_escape (by decide) y
  · rw [h₆]
    exact parseStringBody_escape (by decide) y
  · rw [h₇]
    exact parseStringBody_escape (by decide) y
  · have hc : c.toNat < 0x20 := UInt8.lt_iff_toNat_lt.1 h₈
    have hutf : appendUtf8 c.toNat = [c] := by
      rw [appendUtf8, if_pos (by omega), UInt8.ofNat_toNat]
    have hp : opensPair c.toNat y = false := by
      rw [← Bool.not_eq_true, opensPair_eq_true_iff]
      rintro ⟨⟨h, -⟩, -⟩
      omega
    have := parseUnicode_single (hex4_escapeByte c) hp
    rw [hutf] at this
    exact parseStringBody_unicode this
  · exact parseStringBody_byte h₁ h₂ y

/-- The writer's spelling of a text. -/
def Escaped (text body : Bytes) : Prop := body = text.flatMap escapeByte

theorem readsStrings_escaped : ReadsStrings Escaped := by
  rintro text body rfl rest
  induction text with
  | nil => rfl
  | cons c text ih =>
    rw [List.flatMap_cons, List.append_assoc, parseStringBody_escapeByte, ih]
    rfl

theorem flStrbufAppendJsonString_eq (buf : Bytes) {text : Bytes} (h : 0 ∉ text) :
    flStrbufAppendJsonString buf text = buf ++ quoted (text.flatMap escapeByte) := by
  rw [flStrbufAppendJsonString, cstr_eq_self h, quoted]
  simp only [List.append_assoc, List.cons_append, List.nil_append]

/-! ## The request -/

/-- The members the request means. -/
def requestMembers (dbc : Dbc) (sql : Bytes) (count : ℤ) : List (Bytes × Value) :=
  [(lit "sql", .string sql)] ++
  (match dbc.sessionId with
    | some id =>
        [(lit "sessionId", .string id)] ++
          if dbc.tracksSessions = 1 then [(lit "requireSession", .bool true)] else []
    | none => []) ++
  (if 0 ≤ count then [(lit "multiStatementCount", .number (intText count))] else []) ++
  [(lit "autoCommit", .bool true)]

/-- A member as the request spells it, with no white space. -/
theorem member_escaped {k s : Bytes} {v : Value} (hk : k.flatMap escapeByte = k) {n : ℕ}
    (hv : Spells Escaped n v s) :
    Member Escaped (Spells Escaped n) (k, v) (quoted k ++ ch ':' :: s) :=
  ⟨[], k, [], s, ws_nil, hk.symm, ws_nil, ⟨[], s, [], ws_nil, hv, ws_nil, by simp⟩, by simp⟩

theorem number_natText (n : ℕ) : Number (natText n) := by
  refine ⟨[], natText n, [], [], by simp, Or.inl rfl,
    ⟨⟨natText_ne_nil n, fun c hc => isDigit_of_mem_natText hc⟩, fun h => ?_⟩, Or.inl rfl, Or.inl rfl⟩
  rw [natText_of_head_zero h]
  rfl

theorem intText_of_nonneg {n : ℤ} (h : 0 ≤ n) : intText n = natText n.natAbs := by
  rw [intText, if_neg (by omega)]

/-- Texts with commas between them. -/
def joinCommas : List Bytes → Bytes
  | [] => []
  | [s] => s
  | s :: t :: rest => s ++ ch ',' :: joinCommas (t :: rest)

theorem separated_joinCommas {β : Type} {item : β → Bytes → Prop} {xs : List β} {texts : List Bytes}
    (h : List.Forall₂ item xs texts) (hne : texts ≠ []) : Separated item xs (joinCommas texts) := by
  induction h with
  | nil => exact absurd rfl hne
  | @cons x s xs texts hx hrest ih =>
    cases hrest with
    | nil => exact .one hx
    | cons hy hrest => exact .cons hx (ih (List.cons_ne_nil _ _))

/-- The text of one member of a request. -/
def memberText (m : Bytes × Value) : Bytes :=
  quoted m.1 ++ ch ':' ::
    match m.2 with
    | .string text => quoted (text.flatMap escapeByte)
    | .number lexeme => lexeme
    | .bool b => if b then lit "true" else lit "false"
    | _ => []

theorem length_intText_lt {n : ℤ} (h0 : 0 ≤ n) (h : n < 2 ^ 63) : (intText n).length < 25 := by
  rw [intText_of_nonneg h0]
  have := length_natText_le (n := n.natAbs) (k := 19) (by decide) (by omega)
  omega

/-- A request is its members with commas between them, in braces. -/
theorem buildRequestJson_eq {dbc : Dbc} {sql : Bytes} {count : ℤ} (hsql : 0 ∉ sql)
    (hid : ∀ id, dbc.sessionId = some id → 0 ∉ id)
    (hcount : 0 ≤ count → (intText count).length < 25) :
    buildRequestJson dbc sql count =
      ch '\x7b' :: (joinCommas ((requestMembers dbc sql count).map memberText) ++ [ch '\x7d']) := by
  have hopen : lit "\x7b\"sql\":" = ch '\x7b' :: (quoted (lit "sql") ++ [ch ':']) := rfl
  have hsession : lit ",\"sessionId\":" = ch ',' :: (quoted (lit "sessionId") ++ [ch ':']) := rfl
  have hrequire : lit ",\"requireSession\":true" =
      ch ',' :: (quoted (lit "requireSession") ++ ch ':' :: lit "true") := rfl
  have hauto : lit ",\"autoCommit\":true\x7d" =
      ch ',' :: (quoted (lit "autoCommit") ++ ch ':' :: (lit "true" ++ [ch '\x7d'])) := rfl
  have hmulti : lit ",\"multiStatementCount\":" =
      ch ',' :: (quoted (lit "multiStatementCount") ++ [ch ':']) := rfl
  have hprint : 0 ≤ count → snprintf 48 (lit ",\"multiStatementCount\":" ++ intText count) =
      ch ',' :: (quoted (lit "multiStatementCount") ++ ch ':' :: intText count) := by
    intro h0
    have hlen := hcount h0
    have hl : (lit ",\"multiStatementCount\":").length = 23 := rfl
    rw [snprintf_of_lt (by rw [List.length_append]; omega), hmulti]
    simp only [List.cons_append, List.append_assoc, List.nil_append]
  unfold buildRequestJson requestMembers
  rw [hopen, hsession, hrequire, hauto]
  cases hs : dbc.sessionId with
  | none =>
    split_ifs <;> simp (disch := assumption) only [hprint, flStrbufAppendJsonString_eq _ hsql,
      List.map_cons, List.map_nil, memberText, joinCommas, List.cons_append, List.nil_append,
      List.append_assoc, if_true]
  | some id =>
    have hid' := hid id hs
    split_ifs <;> simp (disch := assumption) only [hprint, flStrbufAppendJsonString_eq _ hsql,
      flStrbufAppendJsonString_eq _ hid', List.map_cons, List.map_nil, memberText, joinCommas,
      List.cons_append, List.nil_append, List.append_assoc, if_true]

theorem mem_requestMembers_iff {dbc : Dbc} {sql : Bytes} {count : ℤ} {k : Bytes} {v : Value} :
    (k, v) ∈ requestMembers dbc sql count ↔
      (k = lit "sql" ∧ v = .string sql) ∨
      (k = lit "sessionId" ∧ ∃ id, dbc.sessionId = some id ∧ v = .string id) ∨
      (k = lit "requireSession" ∧ dbc.sessionId.isSome = true ∧ dbc.tracksSessions = 1 ∧
        v = .bool true) ∨
      (k = lit "multiStatementCount" ∧ 0 ≤ count ∧ v = .number (intText count)) ∨
      (k = lit "autoCommit" ∧ v = .bool true) := by
  unfold requestMembers
  by_cases ht : dbc.tracksSessions = 1 <;> by_cases h0 : 0 ≤ count <;> cases hs : dbc.sessionId <;>
    simp [ht, h0]

/-- Every member of a request is spelled by its text. -/
theorem member_memberText {dbc : Dbc} {sql : Bytes} {count : ℤ} {n : ℕ} {m : Bytes × Value}
    (hm : m ∈ requestMembers dbc sql count) : Member Escaped (Spells Escaped n) m (memberText m) := by
  have hstring : ∀ text, Spells Escaped n (.string text) (quoted (text.flatMap escapeByte)) :=
    fun text => spells_string_iff.2 ⟨_, rfl, rfl⟩
  have htrue : Spells Escaped n (.bool true) (lit "true") := spells_bool_iff.2 rfl
  obtain ⟨k, v⟩ := m
  obtain ⟨rfl, rfl⟩ | ⟨rfl, id, -, rfl⟩ | ⟨rfl, -, -, rfl⟩ | ⟨rfl, h0, rfl⟩ | ⟨rfl, rfl⟩ :=
    mem_requestMembers_iff.1 hm
  · exact member_escaped (by decide) (hstring sql)
  · exact member_escaped (by decide) (hstring id)
  · exact member_escaped (by decide) htrue
  · rw [intText_of_nonneg h0]
    exact member_escaped (by decide) (spells_number_iff.2 ⟨number_natText _, rfl⟩)
  · exact member_escaped (by decide) htrue

theorem nodup_requestMembers (dbc : Dbc) (sql : Bytes) (count : ℤ) :
    ((requestMembers dbc sql count).map (·.1)).Nodup := by
  unfold requestMembers
  cases dbc.sessionId <;> split_ifs <;> simp only [List.map_append, List.map_cons, List.map_nil] <;>
    decide

/-- The whole request is read back. -/
theorem flJsonParse_buildRequestJson {dbc : Dbc} {sql : Bytes} {count : ℤ} (hsql : 0 ∉ sql)
    (hid : ∀ id, dbc.sessionId = some id → 0 ∉ id)
    (hcount : 0 ≤ count → (intText count).length < 25) :
    flJsonParse (buildRequestJson dbc sql count) = some (.object (requestMembers dbc sql count)) := by
  have hobject : Spells Escaped jsonMaxDepth (.object (requestMembers dbc sql count))
      (buildRequestJson dbc sql count) := by
    refine ⟨_, buildRequestJson_eq hsql hid hcount, Or.inr (separated_joinCommas ?_ ?_)⟩
    · exact List.forall₂_map_right_iff.2 (List.forall₂_same.2 fun m hm => member_memberText hm)
    · simp [requestMembers]
  exact flJsonParse_spells readsStrings_escaped ⟨[], _, [], ws_nil, hobject, ws_nil, by simp⟩

/-- A request holds the C strings of what it is built from. -/
theorem buildRequestJson_cstr (dbc : Dbc) (sql : Bytes) (count : ℤ) :
    buildRequestJson { dbc with sessionId := dbc.sessionId.map cstr } (cstr sql) count =
      buildRequestJson dbc sql count := by
  have hcut : ∀ buf text, flStrbufAppendJsonString buf (cstr text) =
      flStrbufAppendJsonString buf text := by
    intro buf text
    rw [flStrbufAppendJsonString, cstr_eq_self (zero_notMem_cstr text), flStrbufAppendJsonString]
  unfold buildRequestJson
  cases dbc.sessionId with
  | none => simp only [hcut, Option.map_none]
  | some id => simp only [hcut, Option.map_some]

/-- The buffer for the count takes 24 digits; what it holds of a longer one is a number again. -/
theorem exists_natText_take (n k : ℕ) (hk : 0 < k) : ∃ m, natText m = (natText n).take k := by
  induction n using Nat.strong_induction_on with
  | _ n ih =>
    by_cases hle : (natText n).length ≤ k
    · exact ⟨n, (List.take_of_length_le hle).symm⟩
    · rw [natText_eq_if] at hle ⊢
      by_cases hn : n < 10
      · rw [if_pos hn] at hle
        exact absurd hk hle
      · rw [if_neg hn] at hle ⊢
        obtain ⟨m, hm⟩ := ih (n / 10) (by omega)
        refine ⟨m, ?_⟩
        rw [hm, List.take_append_of_le_length]
        simp only [List.length_append, List.length_singleton, not_le] at hle
        omega

theorem exists_shortCount (dbc : Dbc) (sql : Bytes) (count : ℤ) :
    ∃ count', (0 ≤ count' → (intText count').length < 25) ∧
      buildRequestJson dbc sql count = buildRequestJson dbc sql count' := by
  by_cases h0 : 0 ≤ count
  · obtain ⟨m, hm⟩ := exists_natText_take count.natAbs 24 (by decide)
    have hlen : (natText m).length ≤ 24 := by
      rw [hm]
      exact List.length_take_le _ _
    have hprint : ∀ text : Bytes, snprintf 48 (lit ",\"multiStatementCount\":" ++ text) =
        lit ",\"multiStatementCount\":" ++ text.take 24 := by
      intro text
      rw [snprintf, List.take_append]
      rfl
    refine ⟨m, fun _ => ?_, ?_⟩
    · rw [intText_of_nonneg (Int.natCast_nonneg m)]
      exact Nat.lt_succ_of_le hlen
    unfold buildRequestJson
    simp only [if_pos h0, if_pos (Int.natCast_nonneg m), hprint, intText_of_nonneg h0,
      intText_of_nonneg (Int.natCast_nonneg m), Int.natAbs_natCast, hm, List.take_take, min_self]
  · exact ⟨count, fun h => absurd h h0, rfl⟩

/-- What a request says of the session: its id, and whether it is required. -/
theorem exists_requestMembers (dbc : Dbc) (sql : Bytes) (count : ℤ) :
    ∃ count', flJsonParse (buildRequestJson dbc sql count) = some (.object
      (requestMembers { dbc with sessionId := dbc.sessionId.map cstr } (cstr sql) count')) := by
  obtain ⟨count', hshort, hsame⟩ := exists_shortCount dbc sql count
  refine ⟨count', ?_⟩
  rw [hsame, ← buildRequestJson_cstr]
  refine flJsonParse_buildRequestJson (zero_notMem_cstr sql) ?_ hshort
  intro id hid
  obtain ⟨id', -, rfl⟩ := Option.map_eq_some_iff.1 hid
  exact zero_notMem_cstr id'

/-- The request on the wire says what was asked and nothing else: read back, it is an object with
the SQL text, the session id where the connection holds one, `requireSession` where the engine is
known to understand it, the declared statement count if one was declared, and `autoCommit`. -/
theorem buildRequestJson_round_trip (dbc : Dbc) (sql : Bytes) (count : ℤ) (hsql : 0 ∉ sql)
    (hid : ∀ id, dbc.sessionId = some id → 0 ∉ id) (hcount : count < 2 ^ 63) :
    ∃ ms, flJsonParse (buildRequestJson dbc sql count) = some (.object ms) ∧
      (ms.map (·.1)).Nodup ∧
      ∀ k v, (k, v) ∈ ms ↔
        (k = lit "sql" ∧ v = .string sql) ∨
        (k = lit "sessionId" ∧ ∃ id, dbc.sessionId = some id ∧ v = .string id) ∨
        (k = lit "requireSession" ∧ dbc.sessionId.isSome = true ∧ dbc.tracksSessions = 1 ∧
          v = .bool true) ∨
        (k = lit "multiStatementCount" ∧ 0 ≤ count ∧ v = .number (intText count)) ∨
        (k = lit "autoCommit" ∧ v = .bool true) :=
  ⟨requestMembers dbc sql count,
    flJsonParse_buildRequestJson hsql hid fun h0 => length_intText_lt h0 hcount,
    nodup_requestMembers dbc sql count, fun _ _ => mem_requestMembers_iff⟩

/-- A statement with a quote, a line feed and a byte beyond ASCII, over a session. -/
theorem buildRequestJson_round_trip_select :
    ∃ ms, flJsonParse (buildRequestJson
        { allocDbc with sessionId := some (lit "s1"), tracksSessions := 1 }
        (lit "SELECT '\"é\n'") 2) = some (.object ms) ∧
      (lit "sql", .string (lit "SELECT '\"é\n'")) ∈ ms ∧
      (lit "multiStatementCount", .number (lit "2")) ∈ ms := by
  have hid : ∀ id, some (lit "s1") = some id → 0 ∉ id := by
    intro id hid
    cases hid
    decide
  obtain ⟨ms, hparse, -, hmem⟩ := buildRequestJson_round_trip
    { allocDbc with sessionId := some (lit "s1"), tracksSessions := 1 } (lit "SELECT '\"é\n'") 2
    (by decide) hid (by decide)
  exact ⟨ms, hparse, (hmem _ _).2 (Or.inl ⟨rfl, rfl⟩),
    (hmem _ _).2 (Or.inr (Or.inr (Or.inr (Or.inl ⟨rfl, by decide, rfl⟩))))⟩

end FrostlakeOdbc
