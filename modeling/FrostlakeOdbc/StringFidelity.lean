import FrostlakeOdbc.JsonProof
import FrostlakeOdbc.Lib.Utf8

/-!
# What a string literal becomes

The parser hands out the characters of a literal exactly if each of its `\u` escapes stands for a
character, alone or with the one after it, and none of them for U+0000 (`faithful_iff`).
-/

namespace FrostlakeOdbc

open CString JsonText

/-- The body of a string whose surrogate escapes stand in pairs, a high one directly before a low one,
and which has no escape of U+0000. -/
inductive Paired : Bytes → Prop where
  | nil : Paired []
  | raw {c : UInt8} {t : Bytes} (hc : 0x20 ≤ c) (hq : c ≠ ch '"') (hb : c ≠ ch '\\') (ht : Paired t) :
      Paired (c :: t)
  | short {e : UInt8} {c : Char} {t : Bytes} (h : shortEscape e = some c) (ht : Paired t) :
      Paired (ch '\\' :: e :: t)
  | hex {n : ℕ} {s t : Bytes} (h : Hex4 n s) (hzero : n ≠ 0) (hn : n < 0xD800 ∨ 0xDFFF < n)
      (ht : Paired t) : Paired (ch '\\' :: ch 'u' :: (s ++ t))
  | pair {hi lo : ℕ} {s s' t : Bytes} (h : Hex4 hi s) (hhi : 0xD800 ≤ hi ∧ hi ≤ 0xDBFF)
      (h' : Hex4 lo s') (hlo : 0xDC00 ≤ lo ∧ lo ≤ 0xDFFF) (ht : Paired t) :
      Paired (ch '\\' :: ch 'u' :: (s ++ ch '\\' :: ch 'u' :: (s' ++ t)))

/-- The literal with the body `s` is refused, or what is read of it, up to a NUL, is the encoding of
the characters that it denotes. -/
def Faithful (s : Bytes) : Prop :=
  ∀ rest, parseStringBody (s ++ ch '"' :: rest) = none ∨
    ∃ text cs, parseStringBody (s ++ ch '"' :: rest) = some (text, rest) ∧ StringText cs s ∧
      cstr text = utf8 cs

/-! ## Hexadecimal digits -/

theorem hex4_lt {n : ℕ} {s : Bytes} (h : Hex4 n s) : n < 0x10000 := by
  obtain ⟨a, b, c, d, va, vb, vc, vd, -, ha, hb, hc, hd, rfl⟩ := h
  have hva := digitValue_lt ha
  have hvb := digitValue_lt hb
  have hvc := digitValue_lt hc
  have hvd := digitValue_lt hd
  omega

theorem ascii_of_hex4 {n : ℕ} {s : Bytes} (h : Hex4 n s) : ∀ c ∈ s, c < 0x80 := by
  have hdigit : ∀ {c : UInt8} {v : ℕ}, digitValue 16 c = some v → c < 0x80 := by
    intro c v hc
    have hsome : (digitValue 16 c).isSome = true := by
      rw [hc]
      rfl
    revert hsome
    apply forall_byte (P := fun c => (digitValue 16 c).isSome = true → c < 0x80)
    decide +kernel
  obtain ⟨a, b, c, d, va, vb, vc, vd, rfl, ha, hb, hc, hd, -⟩ := h
  simp only [List.forall_mem_cons]
  exact ⟨hdigit ha, hdigit hb, hdigit hc, hdigit hd, fun _ h => absurd h List.not_mem_nil⟩

theorem ascii_of_shortEscape {e : UInt8} {c : Char} (h : shortEscape e = some c) :
    e < 0x80 ∧ c ≠ '\x00' := by
  have hsome : ∀ e, (shortEscape e).isSome = true → e < 0x80 ∧ shortEscape e ≠ some '\x00' := by
    apply forall_byte (P := fun e => (shortEscape e).isSome = true → e < 0x80 ∧
      shortEscape e ≠ some '\x00')
    decide +kernel
  obtain ⟨he, hne⟩ := hsome e (by rw [h]; rfl)
  rw [h] at hne
  exact ⟨he, fun hc => hne (congrArg some hc)⟩

/-! ## UTF-8 behind ASCII -/

theorem wellFormed_of_ascii {a t : Bytes} (ha : ∀ c ∈ a, c < 0x80) (h : Utf8.WellFormed (a ++ t)) :
    Utf8.WellFormed t := by
  induction a with
  | nil => exact h
  | cons c a ih =>
    obtain ⟨ha', ha''⟩ := List.forall_mem_cons.1 ha
    refine ih ha'' ?_
    obtain ⟨cs, hcs⟩ := h
    cases cs with
    | nil => cases hcs
    | cons d ds =>
      rw [List.flatMap_cons, List.cons_append] at hcs
      by_cases hd : d.toNat < 0x80
      · rw [utf8EncodeChar_ascii hd] at hcs
        exact ⟨ds, (List.cons.inj hcs).2⟩
      · obtain ⟨lead, tail, hblock, -⟩ := Utf8.exists_block d
        rw [hblock] at hcs
        have hne := ne_of_mem_utf8EncodeChar (b := c) (a := c) (Nat.le_of_not_lt hd)
          (by rw [hblock, (List.cons.inj hcs).1]; exact List.mem_cons_self ..) ha'
        exact absurd rfl hne

/-! ## From pairs to characters -/

theorem Paired.tail {c : UInt8} {t : Bytes} (hc : c ≠ ch '\\') (h : Paired (c :: t)) : Paired t := by
  cases h with
  | raw _ _ _ ht => exact ht
  | short => exact absurd rfl hc
  | hex => exact absurd rfl hc
  | pair => exact absurd rfl hc

theorem Paired.of_append {a t : Bytes} (ha : ∀ c ∈ a, c ≠ ch '\\') (h : Paired (a ++ t)) : Paired t := by
  induction a with
  | nil => exact h
  | cons c a ih =>
    obtain ⟨hc, ha'⟩ := List.forall_mem_cons.1 ha
    exact ih ha' (h.tail hc)

/-- The character with a code. -/
theorem exists_char {n : ℕ} (h : n < 0xD800 ∨ 0xDFFF < n ∧ n < 0x110000) : ∃ c : Char, c.toNat = n := by
  have hvalid : n.isValidChar := h
  refine ⟨Char.ofNat n, ?_⟩
  rw [Char.ofNat, dif_pos hvalid]
  rfl

/-- A byte that stands for itself is the first of a character that does. -/
theorem exists_raw {b : UInt8} {t : Bytes} (hb : 0x20 ≤ b) (hquote : b ≠ ch '"') (hback : b ≠ ch '\\')
    (hw : Utf8.WellFormed (b :: t)) :
    ∃ c tail rest, String.utf8EncodeChar c = b :: tail ∧ t = tail ++ rest ∧ Utf8.WellFormed rest ∧
      0x20 ≤ c.toNat ∧ c ≠ '"' ∧ c ≠ '\\' := by
  obtain ⟨cs, hcs⟩ := hw
  cases cs with
  | nil => cases hcs
  | cons c cs =>
    rw [List.flatMap_cons] at hcs
    obtain ⟨lead, tail, hblock, -⟩ := Utf8.exists_block c
    rw [hblock, List.cons_append] at hcs
    obtain ⟨rfl, rfl⟩ := List.cons.inj hcs
    refine ⟨c, tail, _, hblock, rfl, ⟨cs, rfl⟩, ?_, ?_, ?_⟩
    · by_contra hlow
      rw [utf8EncodeChar_ascii (by omega)] at hblock
      rw [← (List.cons.inj hblock).1, UInt8.le_iff_toNat_le, ch, UInt8.toNat_ofNat',
        Nat.mod_eq_of_lt (by omega)] at hb
      exact hlow hb
    · rintro rfl
      exact hquote (List.cons.inj hblock).1.symm
    · rintro rfl
      exact hback (List.cons.inj hblock).1.symm

theorem Paired.exists_stringText : ∀ {s : Bytes}, Paired s → Utf8.WellFormed s →
    ∃ cs, StringText cs s ∧ '\x00' ∉ cs
  | _, .nil, _ => ⟨[], .nil, List.not_mem_nil⟩
  | _, @Paired.raw b t hc hq hb ht, hw => by
      obtain ⟨c, tail, rest, hblock, rfl, hrest, hlow, hquote, hback⟩ := exists_raw hc hq hb hw
      have hpaired : Paired rest := ht.of_append fun d hd =>
        (utf8EncodeChar_plain hquote hback d (by rw [hblock]; exact List.mem_cons_of_mem _ hd)).2
      have hlength : rest.length < (b :: (tail ++ rest)).length := by
        rw [List.length_cons, List.length_append]
        omega
      have hne : '\x00' ≠ c := by
        rintro rfl
        exact absurd hlow (by decide)
      obtain ⟨cs, htext, hnone⟩ := hpaired.exists_stringText hrest
      refine ⟨c :: cs, ?_, by simp [hnone, hne]⟩
      rw [← List.cons_append, ← hblock]
      exact .cons (.raw hlow hquote hback) htext
  | _, @Paired.short e c t h ht, hw => by
      obtain ⟨hascii, hzero⟩ := ascii_of_shortEscape h
      have hrest : Utf8.WellFormed t := by
        refine wellFormed_of_ascii (a := [ch '\\', e]) ?_ hw
        simp only [List.forall_mem_cons]
        exact ⟨by decide, hascii, fun _ h => absurd h List.not_mem_nil⟩
      obtain ⟨cs, htext, hnone⟩ := ht.exists_stringText hrest
      exact ⟨c :: cs, .cons (.short h) htext, by simp [hnone, hzero.symm]⟩
  | _, @Paired.hex n s t h hzero hn ht, hw => by
      have hlt := hex4_lt h
      obtain ⟨c, rfl⟩ := exists_char (n := n) (by omega)
      have hrest : Utf8.WellFormed t := by
        refine wellFormed_of_ascii (a := ch '\\' :: ch 'u' :: s) ?_ hw
        simp only [List.forall_mem_cons]
        exact ⟨by decide, by decide, ascii_of_hex4 h⟩
      have hne : '\x00' ≠ c := by
        rintro rfl
        exact hzero rfl
      obtain ⟨cs, htext, hnone⟩ := ht.exists_stringText hrest
      exact ⟨c :: cs, .cons (.hex h) htext, by simp [hnone, hne]⟩
  | _, @Paired.pair hi lo s s' t h hhi h' hlo ht, hw => by
      obtain ⟨c, hc⟩ := exists_char (n := 0x10000 + (hi - 0xD800) * 0x400 + (lo - 0xDC00)) (by omega)
      have hhigh : 0xD800 + (c.toNat - 0x10000) / 0x400 = hi := by omega
      have hlow : 0xDC00 + (c.toNat - 0x10000) % 0x400 = lo := by omega
      have hrest : Utf8.WellFormed t := by
        refine wellFormed_of_ascii (a := ch '\\' :: ch 'u' :: (s ++ ch '\\' :: ch 'u' :: s')) ?_ ?_
        · simp only [List.forall_mem_cons, List.forall_mem_append]
          exact ⟨by decide, by decide, ascii_of_hex4 h, by decide, by decide, ascii_of_hex4 h'⟩
        · simpa using hw
      have hne : '\x00' ≠ c := by
        rintro rfl
        exact absurd hc (by simp; omega)
      obtain ⟨cs, htext, hnone⟩ := ht.exists_stringText hrest
      have hpair : CharText c (ch '\\' :: ch 'u' :: (s ++ ch '\\' :: ch 'u' :: s')) :=
        .pair (by omega) (hhigh.symm ▸ h) (hlow.symm ▸ h')
      refine ⟨c :: cs, ?_, by simp [hnone, hne]⟩
      have hall := StringText.cons hpair htext
      simpa using hall
  termination_by s => s.length

/-! ## From characters to pairs -/

theorem Paired.raw_append {a t : Bytes} (ha : ∀ c ∈ a, 0x20 ≤ c ∧ c ≠ ch '"' ∧ c ≠ ch '\\')
    (ht : Paired t) : Paired (a ++ t) := by
  induction a with
  | nil => exact ht
  | cons c a ih =>
    obtain ⟨⟨hc, hq, hb⟩, ha'⟩ := List.forall_mem_cons.1 ha
    exact .raw hc hq hb (ih ha')

theorem paired_of_stringText {cs : List Char} {s : Bytes} (h : StringText cs s)
    (hzero : '\x00' ∉ cs) : Paired s := by
  induction h with
  | nil => exact .nil
  | @cons c cs s t hc _ ih =>
    rw [List.mem_cons, not_or] at hzero
    have hrest := ih hzero.2
    have hlt := toNat_char_lt c
    cases hc with
    | raw hlow hq hb =>
      refine .raw_append (fun d hd => ⟨?_, utf8EncodeChar_plain hq hb d hd⟩) hrest
      by_cases hascii : c.toNat < 0x80
      · rw [utf8EncodeChar_ascii hascii, List.mem_singleton] at hd
        rw [hd, UInt8.le_iff_toNat_le, ch, UInt8.toNat_ofNat', Nat.mod_eq_of_lt (by omega)]
        exact hlow
      · by_contra hd'
        have hsmall : d < 0x80 := by
          rw [UInt8.le_iff_toNat_le] at hd'
          rw [UInt8.lt_iff_toNat_lt]
          have h20 : (0x20 : UInt8).toNat = 0x20 := rfl
          have h80 : (0x80 : UInt8).toNat = 0x80 := rfl
          omega
        exact ne_of_mem_utf8EncodeChar (Nat.le_of_not_lt hascii) hd hsmall rfl
    | short h => exact .short h hrest
    | hex h =>
      refine .hex h ?_ ?_ hrest
      · intro hnat
        exact hzero.1 (Char.toNat_inj.1 hnat.symm)
      · have hvalid : c.toNat.isValidChar := c.valid
        unfold Nat.isValidChar at hvalid
        omega
    | pair hbig hhi hlo =>
      have hall := Paired.pair hhi ⟨by omega, by omega⟩ hlo ⟨by omega, by omega⟩ hrest
      simpa using hall

/-! ## What is read -/

theorem zero_mem_utf8_iff {cs : List Char} : 0 ∈ utf8 cs ↔ '\x00' ∈ cs := by
  unfold utf8
  rw [List.mem_flatMap]
  constructor
  · rintro ⟨c, hc, hzero⟩
    by_cases hascii : c.toNat < 0x80
    · rw [utf8EncodeChar_ascii hascii, List.mem_singleton] at hzero
      have hnat := congrArg UInt8.toNat hzero
      rw [ch, UInt8.toNat_ofNat', Nat.mod_eq_of_lt (by omega)] at hnat
      have hc' : c = '\x00' := Char.toNat_inj.1 hnat.symm
      exact hc' ▸ hc
    · exact absurd rfl (ne_of_mem_utf8EncodeChar (Nat.le_of_not_lt hascii) hzero (by decide))
  · intro h
    exact ⟨'\x00', h, by decide⟩

/-- What is faithful spells characters, none of them U+0000. -/
theorem Faithful.paired {s : Bytes} (hs : StringBody s) (h : Faithful s) : Paired s := by
  obtain ⟨text, htext⟩ := exists_parseStringBody hs.loose
  rcases h [] with hnone | ⟨text', cs, hread, hcs, hsame⟩
  · rw [htext] at hnone
    cases hnone
  · rw [parseStringBody_stringText hcs] at hread
    obtain rfl : utf8 cs = text' := (Prod.mk.inj (Option.some.inj hread)).1
    refine paired_of_stringText hcs fun hzero => ?_
    have hmem := zero_mem_utf8_iff.2 hzero
    rw [← hsame] at hmem
    exact zero_notMem_cstr _ hmem

/-- A UTF-8 string literal becomes the text of the characters it denotes exactly if its surrogate
escapes stand in pairs and it has no escape of U+0000. -/
theorem faithful_iff {s : Bytes} (hs : StringBody s) (hutf8 : Utf8.WellFormed s) :
    Faithful s ↔ Paired s := by
  refine ⟨fun h => h.paired hs, fun h rest => ?_⟩
  obtain ⟨cs, hcs, hzero⟩ := h.exists_stringText hutf8
  refine .inr ⟨utf8 cs, cs, parseStringBody_stringText hcs rest, hcs, ?_⟩
  exact cstr_eq_self fun hmem => hzero (zero_mem_utf8_iff.1 hmem)

theorem hex4_d83d : Hex4 0xD83D (lit "d83d") :=
  ⟨ch 'd', ch '8', ch '3', ch 'd', 13, 8, 3, 13, by decide⟩

/-- An emoji, as two surrogates. -/
theorem faithful_pair : Faithful (lit "\\ud83d\\ude00") := by
  have hlow : Hex4 0xDE00 (lit "de00") := ⟨ch 'd', ch 'e', ch '0', ch '0', 13, 14, 0, 0, by decide⟩
  have hbody : StringBody (ch '\\' :: ch 'u' :: (lit "d83d" ++ (ch '\\' :: ch 'u' :: (lit "de00" ++ [])))) :=
    .hex hex4_d83d (.hex hlow .nil)
  have hpaired : Paired (ch '\\' :: ch 'u' :: (lit "d83d" ++ (ch '\\' :: ch 'u' :: (lit "de00" ++ [])))) :=
    .pair hex4_d83d (by decide) hlow (by decide) .nil
  have hutf8 : Utf8.WellFormed (lit "\\ud83d\\ude00") :=
    ⟨['\\', 'u', 'd', '8', '3', 'd', '\\', 'u', 'd', 'e', '0', '0'], by decide⟩
  exact (faithful_iff hbody hutf8).2 hpaired

/-- A high surrogate takes an `A` along. -/
theorem not_faithful_absorbed : ¬Faithful (lit "\\ud83d\\u0041") := by
  have hletter : Hex4 0x41 (lit "0041") := ⟨ch '0', ch '0', ch '4', ch '1', 0, 0, 4, 1, by decide⟩
  have hbody : StringBody (ch '\\' :: ch 'u' :: (lit "d83d" ++ (ch '\\' :: ch 'u' :: (lit "0041" ++ [])))) :=
    .hex hex4_d83d (.hex hletter .nil)
  intro h
  have hpaired : Paired (ch '\\' :: ch 'u' :: (lit "d83d" ++ (ch '\\' :: ch 'u' :: lit "0041"))) :=
    h.paired hbody
  generalize hs : ch '\\' :: ch 'u' :: (lit "d83d" ++ (ch '\\' :: ch 'u' :: lit "0041")) = s at hpaired
  cases hpaired with
  | nil => cases hs
  | raw _ _ hb _ => exact hb (List.cons.inj hs).1.symm
  | short he _ =>
    rw [← (List.cons.inj (List.cons.inj hs).2).1] at he
    cases he
  | @hex n s t hn _ hrange _ =>
    have hsplit := (List.cons.inj (List.cons.inj hs).2).2
    have hread := parseHex4_append hn t
    rw [← hsplit, parseHex4_append hex4_d83d] at hread
    have hvalue : 0xD83D = n := (Prod.mk.inj (Option.some.inj hread)).1
    omega
  | @pair hi lo s s' t hhi _ hlo hrange _ =>
    have hsplit := (List.cons.inj (List.cons.inj hs).2).2
    have hread := parseHex4_append hhi (ch '\\' :: ch 'u' :: (s' ++ t))
    rw [← hsplit, parseHex4_append hex4_d83d] at hread
    have hrest := (Prod.mk.inj (Option.some.inj hread)).2
    have hread' := parseHex4_append hlo t
    rw [← (List.cons.inj (List.cons.inj hrest).2).2] at hread'
    have hletter' := parseHex4_append hletter []
    rw [List.append_nil, hread'] at hletter'
    have hvalue : lo = 0x41 := (Prod.mk.inj (Option.some.inj hletter')).1
    omega

end FrostlakeOdbc
