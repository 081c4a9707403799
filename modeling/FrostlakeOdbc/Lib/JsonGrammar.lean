import FrostlakeOdbc.Lib.JsonText

/-!
# The grammar of JSON texts

`SpellsWith num str` is `Spells str` with a parameter for the numbers as well, so that a reader that
takes more than JSON has a grammar of the same shape. Such a grammar is unambiguous
(`SpellsWith.unique`) as soon as it can be seen where a string ends.
-/

namespace JsonText

open CString

/-- `s` spells `v` with at most `n` arrays and objects inside one another, numbers being what `num`
allows. -/
def SpellsWith (num : Bytes → Prop) (str : Bytes → Bytes → Prop) : ℕ → Value → Bytes → Prop
  | _, .null, s => s = lit "null"
  | _, .bool b, s => s = if b then lit "true" else lit "false"
  | _, .number lexeme, s => num lexeme ∧ s = lexeme
  | _, .string text, s => ∃ body, str text body ∧ s = quoted body
  | 0, .array _, _ => False
  | 0, .object _, _ => False
  | n + 1, .array vs, s => ∃ body, s = ch '[' :: (body ++ [ch ']']) ∧
      (vs = [] ∧ Ws body ∨ Separated (fun v => Padded (SpellsWith num str n v)) vs body)
  | n + 1, .object ms, s => ∃ body, s = ch '\x7b' :: (body ++ [ch '\x7d']) ∧
      (ms = [] ∧ Ws body ∨ Separated (Member str (SpellsWith num str n)) ms body)

theorem spells_eq (str : Bytes → Bytes → Prop) (n : ℕ) :
    Spells str n = SpellsWith Number str n := by
  induction n with
  | zero =>
    funext v s
    cases v <;> rfl
  | succ n ih =>
    funext v s
    cases v with
    | array vs => simp only [Spells, SpellsWith, ih]
    | object ms => simp only [Spells, SpellsWith, ih]
    | _ => rfl

section

variable {num : Bytes → Prop} {str : Bytes → Bytes → Prop} {n : ℕ} {s : Bytes}

theorem spellsWith_null_iff : SpellsWith num str n .null s ↔ s = lit "null" := by cases n <;> rfl

theorem spellsWith_bool_iff {b : Bool} :
    SpellsWith num str n (.bool b) s ↔ s = if b then lit "true" else lit "false" := by
  cases n <;> rfl

theorem spellsWith_number_iff {lexeme : Bytes} :
    SpellsWith num str n (.number lexeme) s ↔ num lexeme ∧ s = lexeme := by cases n <;> rfl

theorem spellsWith_string_iff {text : Bytes} :
    SpellsWith num str n (.string text) s ↔ ∃ body, str text body ∧ s = quoted body := by
  cases n <;> rfl

end

/-- Arrays and objects nest at most `n` deep. -/
def NestsWithin : ℕ → Value → Prop
  | _, .null => True
  | _, .bool _ => True
  | _, .number _ => True
  | _, .string _ => True
  | 0, .array _ => False
  | 0, .object _ => False
  | n + 1, .array vs => ∀ v ∈ vs, NestsWithin n v
  | n + 1, .object ms => ∀ m ∈ ms, NestsWithin n m.2

/-- The numbers of a value are such as `num` allows, its keys and strings such as `str` allows. -/
inductive Leaves (num str : Bytes → Prop) : Value → Prop where
  | null : Leaves num str .null
  | bool (b : Bool) : Leaves num str (.bool b)
  | number {lexeme : Bytes} (h : num lexeme) : Leaves num str (.number lexeme)
  | string {text : Bytes} (h : str text) : Leaves num str (.string text)
  | array {vs : List Value} (h : ∀ v ∈ vs, Leaves num str v) : Leaves num str (.array vs)
  | object {ms : List (Bytes × Value)} (keys : ∀ m ∈ ms, str m.1)
      (values : ∀ m ∈ ms, Leaves num str m.2) : Leaves num str (.object ms)

/-! ## What a lax reader takes -/

/-- Bytes of numbers, in any order. -/
def LooseNumber (s : Bytes) : Prop := s ≠ [] ∧ ∀ c ∈ s, isNumberByte c = true

/-- The body of a string in which every byte but the quote and the backslash may stand for
itself. -/
inductive LooseBody : Bytes → Prop where
  | nil : LooseBody []
  | raw {c : UInt8} {t : Bytes} (hq : c ≠ ch '"') (hb : c ≠ ch '\\') (ht : LooseBody t) :
      LooseBody (c :: t)
  | short {e : UInt8} {c : Char} {t : Bytes} (h : shortEscape e = some c) (ht : LooseBody t) :
      LooseBody (ch '\\' :: e :: t)
  | hex {n : ℕ} {s t : Bytes} (h : Hex4 n s) (ht : LooseBody t) :
      LooseBody (ch '\\' :: ch 'u' :: (s ++ t))

theorem Number.loose {s : Bytes} (h : Number s) : LooseNumber s := by
  refine ⟨?_, h.bytes⟩
  obtain ⟨c, rest, rfl, -⟩ := h.head
  exact List.cons_ne_nil c rest

/-- A lax body is legal when no control character stands in it. -/
theorem stringBody_iff {s : Bytes} : StringBody s ↔ LooseBody s ∧ ∀ c ∈ s, 0x20 ≤ c := by
  have hdigits : ∀ {n : ℕ} {s : Bytes}, Hex4 n s → ∀ c ∈ s, 0x20 ≤ c := by
    rintro n s ⟨a, b, c, d, va, vb, vc, vd, rfl, ha, hb, hc, hd, -⟩
    have digit : ∀ {x : UInt8} {v : ℕ}, digitValue 16 x = some v → 0x20 ≤ x := by
      intro x v hx
      have hsome : (digitValue 16 x).isSome = true := by simp [hx]
      revert hsome
      apply forall_byte (P := fun x => (digitValue 16 x).isSome = true → 0x20 ≤ x)
      decide +kernel
    simp [digit ha, digit hb, digit hc, digit hd]
  have hescape : ∀ {e : UInt8} {c : Char}, shortEscape e = some c → 0x20 ≤ e := by
    intro e c he
    have hsome : (shortEscape e).isSome = true := by simp [he]
    revert hsome
    apply forall_byte (P := fun e => (shortEscape e).isSome = true → 0x20 ≤ e)
    decide +kernel
  constructor
  · intro h
    induction h with
    | nil => exact ⟨.nil, by simp⟩
    | raw hc hq hb _ ih => exact ⟨.raw hq hb ih.1, by simpa [hc] using ih.2⟩
    | short he _ ih =>
      refine ⟨.short he ih.1, ?_⟩
      simp only [List.forall_mem_cons]
      exact ⟨by decide, hescape he, ih.2⟩
    | hex hs _ ih =>
      refine ⟨.hex hs ih.1, ?_⟩
      simp only [List.forall_mem_cons, List.forall_mem_append]
      exact ⟨by decide, by decide, hdigits hs, ih.2⟩
  · rintro ⟨h, hall⟩
    induction h with
    | nil => exact .nil
    | raw hq hb _ ih =>
      rw [List.forall_mem_cons] at hall
      exact .raw hall.1 hq hb (ih hall.2)
    | short he _ ih =>
      simp only [List.forall_mem_cons] at hall
      exact .short he (ih hall.2.2)
    | hex hs _ ih =>
      simp only [List.forall_mem_cons, List.forall_mem_append] at hall
      exact .hex hs (ih hall.2.2.2)

theorem StringBody.loose {s : Bytes} (h : StringBody s) : LooseBody s := (stringBody_iff.1 h).1

/-! ## Where a number ends -/

/-- Nothing a number could go on with follows. -/
def NumberStop (rest : Bytes) : Prop := ∀ c ∈ rest.head?, isNumberByte c = false

theorem numberStop_append {b rest : Bytes} (hb : Ws b) (h : NumberStop rest) :
    NumberStop (b ++ rest) := by
  cases b with
  | nil => exact h
  | cons c b =>
    intro d hd
    obtain rfl : c = d := by simpa using hd
    have hw := hb c (by simp)
    revert hw
    apply forall_byte (P := fun c => isWs c = true → isNumberByte c = false)
    decide +kernel

theorem numberStop_of_ws {b : Bytes} (hb : Ws b) : NumberStop b := by
  have hnil : NumberStop [] := by simp [NumberStop]
  simpa using numberStop_append hb hnil

/-! ## Induction over a derivation -/

section

variable {num num' : Bytes → Prop} {str str' : Bytes → Bytes → Prop}

/-- Induction along the grammar: what stands inside an array or an object is spelled, and has the
property already. -/
@[elab_as_elim]
theorem SpellsWith.induction
    {motive : (n : ℕ) → (v : Value) → (s : Bytes) → SpellsWith num str n v s → Prop}
    (null : ∀ n h, motive n .null (lit "null") h)
    (bool : ∀ n b h, motive n (.bool b) (if b then lit "true" else lit "false") h)
    (number : ∀ n lexeme h, num lexeme → motive n (.number lexeme) lexeme h)
    (string : ∀ n text body h, str text body → motive n (.string text) (quoted body) h)
    (array : ∀ n vs body h, (vs = [] ∧ Ws body ∨ Separated
        (fun v => Padded fun s => ∃ hs : SpellsWith num str n v s, motive n v s hs) vs body) →
      motive (n + 1) (.array vs) (ch '[' :: (body ++ [ch ']'])) h)
    (object : ∀ n ms body h, (ms = [] ∧ Ws body ∨ Separated
        (Member str fun v s => ∃ hs : SpellsWith num str n v s, motive n v s hs) ms body) →
      motive (n + 1) (.object ms) (ch '\x7b' :: (body ++ [ch '\x7d'])) h)
    {n : ℕ} {v : Value} {s : Bytes} (h : SpellsWith num str n v s) : motive n v s h := by
  induction n generalizing v s with
  | zero =>
    cases v with
    | null =>
      have hs : s = lit "null" := h
      subst hs
      exact null _ h
    | bool b =>
      have hs : s = if b then lit "true" else lit "false" := h
      subst hs
      exact bool _ b h
    | number lexeme =>
      obtain ⟨hnum, rfl⟩ := h
      exact number 0 _ _ hnum
    | string t =>
      obtain ⟨body, hb, rfl⟩ := h
      exact string 0 t body _ hb
    | array vs => exact h.elim
    | object ms => exact h.elim
  | succ n ih =>
    have hpadded : ∀ v s, Padded (SpellsWith num str n v) s →
        Padded (fun s => ∃ hs : SpellsWith num str n v s, motive n v s hs) s :=
      fun v s hs => hs.imp fun t ht => ⟨ht, ih ht⟩
    cases v with
    | null =>
      have hs : s = lit "null" := h
      subst hs
      exact null _ h
    | bool b =>
      have hs : s = if b then lit "true" else lit "false" := h
      subst hs
      exact bool _ b h
    | number lexeme =>
      obtain ⟨hnum, rfl⟩ := h
      exact number _ _ _ hnum
    | string t =>
      obtain ⟨body, hb, rfl⟩ := h
      exact string _ t body _ hb
    | array vs =>
      obtain ⟨body, rfl, hbody⟩ := h
      exact array n vs body _ (hbody.imp_right fun hsep => hsep.imp fun v _ s => hpadded v s)
    | object ms =>
      obtain ⟨body, rfl, hbody⟩ := h
      refine object n ms body _ (hbody.imp_right fun hsep => hsep.imp fun m _ s hm => ?_)
      exact hm.imp (fun _ hk => hk) (hpadded m.2)

namespace SpellsWith

/-- The same text, with the values of its numbers and strings taken otherwise. -/
theorem choose (hnum : ∀ s, num s → num' s) (hstr : ∀ t s, str t s → ∃ t', str' t' s) {n : ℕ}
    {v : Value} {s : Bytes} (h : SpellsWith num str n v s) : ∃ v', SpellsWith num' str' n v' s := by
  induction h using SpellsWith.induction with
  | null n => exact ⟨.null, by cases n <;> rfl⟩
  | bool n b => exact ⟨.bool b, by cases n <;> rfl⟩
  | number n lexeme _ h => exact ⟨.number lexeme, by cases n <;> exact ⟨hnum _ h, rfl⟩⟩
  | string n text body _ h =>
    obtain ⟨t', ht'⟩ := hstr text body h
    exact ⟨.string t', by cases n <;> exact ⟨body, ht', rfl⟩⟩
  | array n vs body _ h =>
    obtain ⟨-, hws⟩ | hsep := h
    · exact ⟨.array [], body, rfl, Or.inl ⟨rfl, hws⟩⟩
    · obtain ⟨ws, hw⟩ := hsep.choose (fun v => Padded (SpellsWith num' str' n v)) (by
        rintro v s ⟨a, t, b, ha, ⟨-, v', hv'⟩, hb, rfl⟩
        exact ⟨v', a, t, b, ha, hv', hb, rfl⟩)
      exact ⟨.array ws, body, rfl, Or.inr hw⟩
  | object n ms body _ h =>
    obtain ⟨-, hws⟩ | hsep := h
    · exact ⟨.object [], body, rfl, Or.inl ⟨rfl, hws⟩⟩
    · obtain ⟨ws, hw⟩ := hsep.choose (Member str' (SpellsWith num' str' n)) (by
        rintro m s ⟨a, key, b, t, ha, hk, hb, ⟨c, u, d, hc, ⟨-, v', hv'⟩, hd, rfl⟩, rfl⟩
        obtain ⟨k', hk'⟩ := hstr _ _ hk
        exact ⟨(k', v'), a, key, b, _, ha, hk', hb, ⟨c, u, d, hc, hv', hd, rfl⟩, rfl⟩)
      exact ⟨.object ws, body, rfl, Or.inr hw⟩

theorem nestsWithin {n : ℕ} {v : Value} {s : Bytes} (h : SpellsWith num str n v s) :
    NestsWithin n v := by
  induction h using SpellsWith.induction with
  | null n => cases n <;> trivial
  | bool n b => cases n <;> trivial
  | number n lexeme _ h => cases n <;> trivial
  | string n text body _ h => cases n <;> trivial
  | array n vs body _ h =>
    intro v hv
    obtain ⟨rfl, -⟩ | hsep := h
    · simp at hv
    · obtain ⟨s, a, t, b, -, ⟨-, ht⟩, -⟩ := hsep.forall v hv
      exact ht
  | object n ms body _ h =>
    intro m hm
    obtain ⟨rfl, -⟩ | hsep := h
    · simp at hm
    · obtain ⟨s, a, key, b, t, -, -, -, ⟨c, u, d, -, ⟨-, ht⟩, -⟩, -⟩ := hsep.forall m hm
      exact ht

/-- How deep a text nests is how deep its value does. -/
theorem of_nestsWithin {k n : ℕ} {v : Value} {s : Bytes} (h : SpellsWith num str k v s)
    (hn : NestsWithin n v) : SpellsWith num str n v s := by
  induction h using SpellsWith.induction generalizing n with
  | null k => cases n <;> rfl
  | bool k b => cases n <;> rfl
  | number k lexeme _ h => cases n <;> exact ⟨h, rfl⟩
  | string k text body _ h => cases n <;> exact ⟨body, h, rfl⟩
  | array k vs body _ h =>
    cases n with
    | zero => exact hn.elim
    | succ n =>
      refine ⟨body, rfl, h.imp_right fun hsep => hsep.imp fun v hv s hs => hs.imp fun t ht => ?_⟩
      exact ht.2 (hn v hv)
  | object k ms body _ h =>
    cases n with
    | zero => exact hn.elim
    | succ n =>
      refine ⟨body, rfl, h.imp_right fun hsep => hsep.imp fun m hm s hs => ?_⟩
      refine hs.imp (fun _ hk => hk) fun t ht => ht.imp fun u hu => ?_
      exact hu.2 (hn m hm)

theorem leaves {p q : Bytes → Prop} (hnum : ∀ s, num s → p s) (hstr : ∀ t s, str t s → q t) {n : ℕ}
    {v : Value} {s : Bytes} (h : SpellsWith num str n v s) : Leaves p q v := by
  induction h using SpellsWith.induction with
  | null n => exact .null
  | bool n b => exact .bool b
  | number n lexeme _ h => exact .number (hnum _ h)
  | string n text body _ h => exact .string (hstr _ _ h)
  | array n vs body _ h =>
    refine .array fun v hv => ?_
    obtain ⟨rfl, -⟩ | hsep := h
    · simp at hv
    · obtain ⟨s, a, t, b, -, ⟨-, ht⟩, -⟩ := hsep.forall v hv
      exact ht
  | object n ms body _ h =>
    obtain ⟨rfl, -⟩ | hsep := h
    · exact .object (by simp) (by simp)
    · refine .object (fun m hm => ?_) fun m hm => ?_
      · obtain ⟨s, a, key, b, t, -, hk, -⟩ := hsep.forall m hm
        exact hstr _ _ hk
      · obtain ⟨s, a, key, b, t, -, -, -, ⟨c, u, d, -, ⟨-, ht⟩, -⟩, -⟩ := hsep.forall m hm
        exact ht

/-- Where the leaves of the value are such as another grammar asks for, the text is one of that
grammar. -/
theorem of_leaves {p q : Bytes → Prop} (hnum : ∀ s, num s → p s → num' s)
    (hstr : ∀ t s, str t s → q t → str' t s) {n : ℕ} {v : Value} {s : Bytes}
    (h : SpellsWith num str n v s) (hv : Leaves p q v) : SpellsWith num' str' n v s := by
  induction h using SpellsWith.induction with
  | null n => cases n <;> rfl
  | bool n b => cases n <;> rfl
  | number n lexeme _ h =>
    cases hv with
    | number hp => cases n <;> exact ⟨hnum _ h hp, rfl⟩
  | string n text body _ h =>
    cases hv with
    | string hq => cases n <;> exact ⟨body, hstr _ _ h hq, rfl⟩
  | array n vs body _ h =>
    cases hv with
    | array hv =>
      refine ⟨body, rfl, h.imp_right fun hsep => hsep.imp fun v hmem s hs => hs.imp fun t ht => ?_⟩
      exact ht.2 (hv v hmem)
  | object n ms body _ h =>
    cases hv with
    | object keys values =>
      refine ⟨body, rfl, h.imp_right fun hsep => hsep.imp fun m hm s hs => ?_⟩
      refine hs.imp (fun key hk => hstr _ _ hk (keys m hm)) fun t ht => ht.imp fun u hu => ?_
      exact hu.2 (values m hm)

/-- A text is free of NUL bytes if its numbers and the bodies of its strings are. -/
theorem zero_notMem (hnum : ∀ s, num s → 0 ∉ s) (hstr : ∀ t s, str t s → 0 ∉ s) {n : ℕ} {v : Value}
    {s : Bytes} (h : SpellsWith num str n v s) : 0 ∉ s := by
  have hquoted : ∀ {t body : Bytes}, str t body → 0 ∉ quoted body := fun hb => by
    simp [quoted, hstr _ _ hb]
  induction h using SpellsWith.induction with
  | null n => decide
  | bool n b => cases b <;> decide
  | number n lexeme _ h => exact hnum _ h
  | string n text body _ h => exact hquoted h
  | array n vs body _ h =>
    have hin : 0 ∉ body := by
      rcases h with ⟨-, hws⟩ | hsep
      · exact hws.zero_notMem
      · refine hsep.zero_notMem fun v s hv => ?_
        obtain ⟨a, t, b, ha, ⟨-, ht⟩, hb, rfl⟩ := hv
        simp [ha.zero_notMem, ht, hb.zero_notMem]
    simp [hin]
  | object n ms body _ h =>
    have hin : 0 ∉ body := by
      rcases h with ⟨-, hws⟩ | hsep
      · exact hws.zero_notMem
      · refine hsep.zero_notMem fun m s hm => ?_
        obtain ⟨a, key, b, t, ha, hk, hb, ⟨c, u, d, hc, ⟨-, hu⟩, hd, rfl⟩, rfl⟩ := hm
        simp [ha.zero_notMem, hquoted hk, hb.zero_notMem, hc.zero_notMem, hu, hd.zero_notMem]
    simp [hin]

end SpellsWith

/-- Where every body of a string that `str` allows is one that `str'` allows, perhaps for another
text, a text that spells some value still spells one. -/
theorem Spells.choose (hstr : ∀ t s, str t s → ∃ t', str' t' s) {n : ℕ} {v : Value} {s : Bytes}
    (h : Spells str n v s) : ∃ v', Spells str' n v' s := by
  rw [spells_eq] at h ⊢
  exact h.choose (fun _ hnum => hnum) hstr

/-- A text that spells a value is free of NUL bytes if the bodies of its strings are. -/
theorem Spells.zero_notMem (hstr : ∀ t s, str t s → 0 ∉ s) {n : ℕ} {v : Value} {s : Bytes}
    (h : Spells str n v s) : 0 ∉ s := by
  rw [spells_eq] at h
  exact h.zero_notMem (fun _ hnum h0 => absurd (hnum.bytes 0 h0) (by decide)) hstr

end

end JsonText
