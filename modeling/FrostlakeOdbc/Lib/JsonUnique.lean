import FrostlakeOdbc.Lib.JsonGrammar

/-!
# JSON texts are unambiguous

The first byte of a value announces its kind, and each kind shows where it ends: a number at the
first byte that is none of a number's, everything else at a byte of its own. So a text spells one
value (`SpellsWith.alone`), provided that it can be seen where its strings end.
-/

namespace JsonText

open CString

theorem forall_mem_head?_cons {p : UInt8 → Bool} {c : UInt8} (r : Bytes) (h : p c = false) :
    ∀ d ∈ (c :: r).head?, p d = false := by
  simpa using h

/-- A run of bytes of one kind ends where the kind does. -/
theorem run_unique {p : UInt8 → Bool} {a b r q : Bytes} (ha : ∀ c ∈ a, p c = true)
    (hb : ∀ c ∈ b, p c = true) (hr : ∀ c ∈ r.head?, p c = false) (hq : ∀ c ∈ q.head?, p c = false)
    (h : a ++ r = b ++ q) : a = b ∧ r = q := by
  have hab : a = b := by rw [← (takeWhile_append_stop ha hr).1, h, (takeWhile_append_stop hb hq).1]
  subst hab
  exact ⟨rfl, List.append_cancel_left h⟩

/-- The kinds of values. -/
inductive Kind where
  | null
  | bool (b : Bool)
  | number
  | string
  | array
  | object
  deriving DecidableEq

def Value.kind : Value → Kind
  | .null => .null
  | .bool b => .bool b
  | .number _ => .number
  | .string _ => .string
  | .array _ => .array
  | .object _ => .object

/-- The kind of value that a first byte announces. -/
def announced (c : UInt8) : Option Kind :=
  if c = ch '\x7b' then some .object
  else if c = ch '[' then some .array
  else if c = ch '"' then some .string
  else if c = ch 't' then some (.bool true)
  else if c = ch 'f' then some (.bool false)
  else if c = ch 'n' then some .null
  else if isNumberByte c then some .number
  else none

theorem announced_number {c : UInt8} (h : isNumberByte c = true) : announced c = some .number := by
  revert h
  apply forall_byte (P := fun c => isNumberByte c = true → announced c = some .number)
  decide +kernel

/-- A value starts with a byte that is neither white space nor closes anything. -/
theorem announced_plain {c : UInt8} {k : Kind} (h : announced c = some k) :
    isWs c = false ∧ c ≠ ch ']' ∧ c ≠ ch '\x7d' := by
  have hsome : (announced c).isSome = true := by rw [h]; rfl
  revert hsome
  apply forall_byte (P := fun c => (announced c).isSome = true →
    isWs c = false ∧ c ≠ ch ']' ∧ c ≠ ch '\x7d')
  decide +kernel

section

variable {num : Bytes → Prop} {str : Bytes → Bytes → Prop}

theorem SpellsWith.head (hnum : ∀ s, num s → LooseNumber s) {n : ℕ} {v : Value} {s : Bytes}
    (h : SpellsWith num str n v s) : ∃ c r, s = c :: r ∧ announced c = some v.kind := by
  induction h using SpellsWith.induction with
  | null n => exact ⟨_, _, rfl, rfl⟩
  | bool n b => cases b <;> exact ⟨_, _, rfl, rfl⟩
  | number n lexeme _ h =>
    obtain ⟨hne, hall⟩ := hnum _ h
    obtain ⟨c, r, rfl⟩ := List.exists_cons_of_ne_nil hne
    exact ⟨c, r, rfl, announced_number (hall c (by simp))⟩
  | string n text body _ h => exact ⟨_, _, rfl, rfl⟩
  | array n vs body _ h => exact ⟨_, _, rfl, rfl⟩
  | object n ms body _ h => exact ⟨_, _, rfl, rfl⟩

theorem SpellsWith.starts (hnum : ∀ s, num s → LooseNumber s) {n : ℕ} {v : Value} {s x : Bytes}
    (h : SpellsWith num str n v s) : ∀ c ∈ (s ++ x).head?, isWs c = false := by
  obtain ⟨c, y, rfl, hc⟩ := h.head hnum
  exact forall_mem_head?_cons _ (announced_plain hc).1

/-- What a string is, and where it ends, can be seen from the text after its opening quote. -/
def Delimited (str : Bytes → Bytes → Prop) : Prop :=
  ∀ ⦃t b r t' b' r' : Bytes⦄, str t b → str t' b' → b ++ ch '"' :: r = b' ++ ch '"' :: r' →
    t = t' ∧ b = b'

/-- Where `s` stands in front of a comma or `close`, nothing else that `item` spells does. -/
def Settled {β : Type} (item : β → Bytes → Prop) (close : UInt8) (x : β) (s : Bytes) : Prop :=
  ∀ ⦃y : β⦄ ⦃t : Bytes⦄ ⦃c d : UInt8⦄ ⦃r q : Bytes⦄, item y t → (c = ch ',' ∨ c = close) →
    (d = ch ',' ∨ d = close) → s ++ c :: r = t ++ d :: q → x = y ∧ s = t

theorem Separated.unique {β : Type} {item : β → Bytes → Prop} {close : UInt8}
    (hclose : close ≠ ch ',') {xs ys : List β} {s t r q : Bytes}
    (hs : Separated (Settled item close) xs s) (ht : Separated item ys t)
    (h : s ++ close :: r = t ++ close :: q) : xs = ys ∧ s = t := by
  induction hs generalizing ys t with
  | @one x s hx =>
    cases ht with
    | one hy =>
      obtain ⟨rfl, rfl⟩ := hx hy (Or.inr rfl) (Or.inr rfl) h
      exact ⟨rfl, rfl⟩
    | @cons y ys t u hy _ =>
      rw [List.append_assoc, List.cons_append] at h
      obtain ⟨-, rfl⟩ := hx hy (Or.inr rfl) (Or.inl rfl) h
      exact absurd (List.cons.inj (List.append_cancel_left h)).1 hclose
  | @cons x xs s s' hx _ ih =>
    rw [List.append_assoc, List.cons_append] at h
    cases ht with
    | one hy =>
      obtain ⟨-, rfl⟩ := hx hy (Or.inl rfl) (Or.inr rfl) h
      exact absurd (List.cons.inj (List.append_cancel_left h)).1.symm hclose
    | @cons y ys t u hy ht =>
      rw [List.append_assoc, List.cons_append] at h
      obtain ⟨rfl, rfl⟩ := hx hy (Or.inl rfl) (Or.inl rfl) h
      obtain ⟨rfl, rfl⟩ := ih ht (List.cons.inj (List.append_cancel_left h)).2
      exact ⟨rfl, rfl⟩

/-- `s` is the only text of `v` there, and `v` the only value, wherever nothing follows that a
number could go on with. -/
def Alone (num : Bytes → Prop) (str : Bytes → Bytes → Prop) (v : Value) (s : Bytes) : Prop :=
  ∀ ⦃m : ℕ⦄ ⦃w : Value⦄ ⦃t r q : Bytes⦄, SpellsWith num str m w t → NumberStop r → NumberStop q →
    s ++ r = t ++ q → v = w ∧ s = t

theorem settled_padded (hnum : ∀ s, num s → LooseNumber s) {close : UInt8}
    (hstop : isWs close = false ∧ isNumberByte close = false) {n m : ℕ} {v : Value} {s : Bytes}
    (h : Padded (fun s => ∃ _ : SpellsWith num str n v s, Alone num str v s) s) :
    Settled (fun w => Padded (SpellsWith num str m w)) close v s := by
  obtain ⟨a, u, b, ha, ⟨hu, halone⟩, hb, rfl⟩ := h
  rintro w _ c d r q ⟨a', u', b', ha', hu', hb', rfl⟩ hc hd h
  have stop : ∀ {c : UInt8}, (c = ch ',' ∨ c = close) →
      isWs c = false ∧ isNumberByte c = false := by
    rintro c (rfl | rfl)
    · decide
    · exact hstop
  have follows : ∀ {b r : Bytes} {c : UInt8}, Ws b → (c = ch ',' ∨ c = close) →
      NumberStop (b ++ c :: r) :=
    fun hb hc => numberStop_append hb (forall_mem_head?_cons _ (stop hc).2)
  simp only [List.append_assoc] at h
  obtain ⟨rfl, h₁⟩ := run_unique ha ha' (hu.starts hnum) (hu'.starts hnum) h
  obtain ⟨rfl, rfl⟩ := halone hu' (follows hb hc) (follows hb' hd) h₁
  have h₂ := List.append_cancel_left h₁
  obtain ⟨rfl, -⟩ := run_unique hb hb' (forall_mem_head?_cons _ (stop hc).1)
    (forall_mem_head?_cons _ (stop hd).1) h₂
  exact ⟨rfl, rfl⟩

theorem settled_member (hnum : ∀ s, num s → LooseNumber s) (hstr : Delimited str) {close : UInt8}
    (hstop : isWs close = false ∧ isNumberByte close = false) {n m : ℕ} {x : Bytes × Value}
    {s : Bytes}
    (h : Member str (fun v s => ∃ _ : SpellsWith num str n v s, Alone num str v s) x s) :
    Settled (Member str (SpellsWith num str m)) close x s := by
  obtain ⟨a, key, b, u, ha, hk, hb, hu, rfl⟩ := h
  rintro y _ c d r q ⟨a', key', b', u', ha', hk', hb', hu', rfl⟩ hc hd h
  simp only [quoted, List.append_assoc, List.cons_append, List.nil_append] at h
  have hquote : isWs (ch '"') = false := by decide
  have hcolon : isWs (ch ':') = false := by decide
  obtain ⟨rfl, h₁⟩ := run_unique ha ha' (forall_mem_head?_cons _ hquote)
    (forall_mem_head?_cons _ hquote) h
  obtain ⟨hkey, rfl⟩ := hstr hk hk' (List.cons.inj h₁).2
  have h₂ := (List.cons.inj (List.append_cancel_left (List.cons.inj h₁).2)).2
  obtain ⟨rfl, h₃⟩ := run_unique hb hb' (forall_mem_head?_cons _ hcolon)
    (forall_mem_head?_cons _ hcolon) h₂
  obtain ⟨hval, rfl⟩ := settled_padded hnum hstop hu hu' hc hd (List.cons.inj h₃).2
  exact ⟨Prod.ext hkey hval, rfl⟩

/-- After white space `s` goes on with a byte other than `close`. -/
def StartsApart (close : UInt8) (s : Bytes) : Prop :=
  ∃ a c u, Ws a ∧ isWs c = false ∧ c ≠ close ∧ s = a ++ c :: u

theorem startsApart_padded (hnum : ∀ s, num s → LooseNumber s) {n : ℕ} {v : Value} {s : Bytes}
    (h : Padded (SpellsWith num str n v) s) : StartsApart (ch ']') s := by
  obtain ⟨a, u, b, ha, hu, -, rfl⟩ := h
  obtain ⟨c, y, rfl, hc⟩ := hu.head hnum
  obtain ⟨hws, hne, -⟩ := announced_plain hc
  exact ⟨a, c, y ++ b, ha, hws, hne, rfl⟩

theorem startsApart_member {P : Value → Bytes → Prop} {x : Bytes × Value} {s : Bytes}
    (h : Member str P x s) : StartsApart (ch '\x7d') s := by
  obtain ⟨a, key, b, u, ha, -, -, -, rfl⟩ := h
  exact ⟨a, ch '"', _, ha, by decide, by decide, rfl⟩

/-- What stands between the brackets can be read in one way. -/
theorem items_unique {β : Type} {item item' : β → Bytes → Prop} {close : UInt8} {xs ys : List β}
    {s t r q : Bytes} (hclose : isWs close = false) (hcomma : close ≠ ch ',')
    (hsettled : ∀ x s, item x s → Settled item' close x s)
    (hstart : ∀ x s, item x s → StartsApart close s)
    (hstart' : ∀ x s, item' x s → StartsApart close s)
    (hs : xs = [] ∧ Ws s ∨ Separated item xs s) (ht : ys = [] ∧ Ws t ∨ Separated item' ys t)
    (h : s ++ close :: r = t ++ close :: q) : xs = ys ∧ s = t := by
  have apart : ∀ {item : β → Bytes → Prop} {a : Bytes} {xs : List β} {s r q : Bytes},
      (∀ x s, item x s → StartsApart close s) → Ws a → Separated item xs s →
      a ++ close :: r ≠ s ++ close :: q := by
    intro item a xs s r q hstart ha hs h
    obtain ⟨b, c, u, hb, hc, hne, rfl⟩ : StartsApart close s := by
      cases hs with
      | one hx => exact hstart _ _ hx
      | cons hx _ =>
        obtain ⟨b, c, u, hb, hc, hne, rfl⟩ := hstart _ _ hx
        exact ⟨b, c, _, hb, hc, hne, List.append_assoc _ _ _⟩
    rw [List.append_assoc] at h
    have hu := (run_unique ha hb (forall_mem_head?_cons _ hclose) (forall_mem_head?_cons _ hc) h).2
    exact hne (List.cons.inj hu).1.symm
  rcases hs with ⟨rfl, hs⟩ | hs
  · rcases ht with ⟨rfl, ht⟩ | ht
    · have hstop := fun r => forall_mem_head?_cons (p := isWs) r hclose
      exact ⟨rfl, (run_unique hs ht (hstop _) (hstop _) h).1⟩
    · exact absurd h (apart hstart' hs ht)
  · rcases ht with ⟨rfl, ht⟩ | ht
    · exact absurd h.symm (apart hstart ht hs)
    · exact (hs.imp fun x _ s hx => hsettled x s hx).unique hcomma ht h

/-- A text spells one value, and ends where that value does. -/
theorem SpellsWith.alone (hnum : ∀ s, num s → LooseNumber s) (hstr : Delimited str) {n : ℕ}
    {v : Value} {s : Bytes} (h : SpellsWith num str n v s) : Alone num str v s := by
  -- the first byte tells the kind of the other value
  have kinds : ∀ {n m : ℕ} {v w : Value} {s t r q : Bytes}, SpellsWith num str n v s →
      SpellsWith num str m w t → s ++ r = t ++ q → v.kind = w.kind := by
    intro n m v w s t r q hs ht h
    obtain ⟨c, x, rfl, hc⟩ := hs.head hnum
    obtain ⟨d, y, rfl, hd⟩ := ht.head hnum
    obtain ⟨rfl, -⟩ := List.cons.inj h
    rw [hc] at hd
    exact Option.some.inj hd
  induction h using SpellsWith.induction with
  | null n hs =>
    intro m w t r q ht hr hq h
    have hk := kinds hs ht h
    cases w with
    | null => exact ⟨rfl, (spellsWith_null_iff.1 ht).symm⟩
    | _ => cases hk
  | bool n b hs =>
    intro m w t r q ht hr hq h
    have hk := kinds hs ht h
    cases w with
    | bool b' =>
      cases hk
      exact ⟨rfl, (spellsWith_bool_iff.1 ht).symm⟩
    | _ => cases hk
  | number n lexeme hs hx =>
    intro m w t r q ht hr hq h
    have hk := kinds hs ht h
    cases w with
    | number lexeme' =>
      obtain ⟨hx', rfl⟩ := spellsWith_number_iff.1 ht
      obtain ⟨rfl, -⟩ := run_unique (hnum _ hx).2 (hnum _ hx').2 hr hq h
      exact ⟨rfl, rfl⟩
    | _ => cases hk
  | string n text body hs hb =>
    intro m w t r q ht hr hq h
    have hk := kinds hs ht h
    cases w with
    | string text' =>
      obtain ⟨body', hb', rfl⟩ := spellsWith_string_iff.1 ht
      simp only [quoted, List.cons_append, List.append_assoc, List.nil_append] at h
      obtain ⟨rfl, rfl⟩ := hstr hb hb' (List.cons.inj h).2
      exact ⟨rfl, rfl⟩
    | _ => cases hk
  | array n vs body hs hbody =>
    intro m w t r q ht hr hq h
    have hk := kinds hs ht h
    cases w with
    | array ws =>
      cases m with
      | zero => exact ht.elim
      | succ m =>
        obtain ⟨body', rfl, hbody'⟩ := ht
        simp only [List.cons_append, List.append_assoc, List.nil_append] at h
        obtain ⟨rfl, rfl⟩ := items_unique (by decide) (by decide)
          (fun v s hv => settled_padded hnum (by decide) hv)
          (fun v s hv => startsApart_padded hnum (hv.imp fun _ ht => ht.1))
          (fun v s hv => startsApart_padded hnum hv) hbody hbody' (List.cons.inj h).2
        exact ⟨rfl, rfl⟩
    | _ => cases hk
  | object n ms body hs hbody =>
    intro m w t r q ht hr hq h
    have hk := kinds hs ht h
    cases w with
    | object ms' =>
      cases m with
      | zero => exact ht.elim
      | succ m =>
        obtain ⟨body', rfl, hbody'⟩ := ht
        simp only [List.cons_append, List.append_assoc, List.nil_append] at h
        obtain ⟨rfl, rfl⟩ := items_unique (by decide) (by decide)
          (fun v s hv => settled_member hnum hstr (by decide) hv)
          (fun x s hx => startsApart_member hx) (fun x s hx => startsApart_member hx)
          hbody hbody' (List.cons.inj h).2
        exact ⟨rfl, rfl⟩
    | _ => cases hk

/-- A text spells one value, whatever white space stands around it. -/
theorem SpellsWith.unique (hnum : ∀ s, num s → LooseNumber s) (hstr : Delimited str) {n m : ℕ}
    {v w : Value} {s : Bytes} (hv : Padded (SpellsWith num str n v) s)
    (hw : Padded (SpellsWith num str m w) s) : v = w := by
  obtain ⟨a, t, b, ha, ht, hb, rfl⟩ := hv
  obtain ⟨a', t', b', ha', ht', hb', h⟩ := hw
  obtain ⟨-, h₁⟩ := run_unique ha ha' (ht.starts hnum) (ht'.starts hnum) h
  exact (ht.alone hnum hstr ht' (numberStop_of_ws hb) (numberStop_of_ws hb') h₁).1

end

end JsonText
