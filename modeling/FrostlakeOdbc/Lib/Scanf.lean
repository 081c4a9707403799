import FrostlakeOdbc.Lib.CNumber

/-!
# Fields of digits

What `sscanf` takes for an integer of a limited width, and the digits `printf` pads with zeros. A
field may have white space and a sign in front, and need not have its full width.
-/

namespace CString

/-! ## The values of digits -/

theorem leadingValue_append_of_digits {base acc : ℕ} {a : Bytes}
    (ha : ∀ c ∈ a, (digitValue base c).isSome = true) (b : Bytes) :
    leadingValue base acc (a ++ b) = leadingValue base (leadingValue base acc a) b := by
  induction a generalizing acc with
  | nil => rfl
  | cons c a ih =>
    obtain ⟨v, hv⟩ := Option.isSome_iff_exists.1 (ha c List.mem_cons_self)
    simp only [List.cons_append, leadingValue, hv]
    exact ih fun d hd => ha d (List.mem_cons_of_mem _ hd)

theorem digitValue_ofNat : ∀ d < 10, digitValue 10 (UInt8.ofNat (48 + d)) = some d := by decide

theorem leadingValue_natText (n : ℕ) : leadingValue 10 0 (natText n) = n := by
  induction n using Nat.strongRecOn with
  | ind n ih =>
    rw [natText_eq_if]
    split
    · next h => simp only [leadingValue, digitValue_ofNat n h, Nat.zero_mul, Nat.zero_add]
    · next h =>
      have hdigits : ∀ c ∈ natText (n / 10), (digitValue 10 c).isSome = true :=
        fun c hc => digitValue_of_isDigit (isDigit_of_mem_natText hc)
      rw [leadingValue_append_of_digits hdigits, ih (n / 10) (by omega)]
      simp only [leadingValue, digitValue_ofNat _ (Nat.mod_lt n (by decide : 10 > 0))]
      omega

theorem leadingValue_zeros (acc k : ℕ) :
    leadingValue 10 acc (List.replicate k (ch '0')) = acc * 10 ^ k := by
  induction k generalizing acc with
  | zero => simp [leadingValue]
  | succ k ih =>
    have hzero : digitValue 10 (ch '0') = some 0 := by decide
    simp only [List.replicate_succ, leadingValue, hzero, ih, Nat.add_zero, Nat.pow_succ]
    rw [Nat.mul_assoc, Nat.mul_comm 10]

theorem isDigit_natTextPadded {w n : ℕ} {c : UInt8} (hc : c ∈ natTextPadded w n) : isDigit c = true := by
  unfold natTextPadded at hc
  rcases List.mem_append.1 hc with h | h
  · rw [List.eq_of_mem_replicate h]
    decide
  · exact isDigit_of_mem_natText h

theorem leadingValue_natTextPadded (w n : ℕ) : leadingValue 10 0 (natTextPadded w n) = n := by
  unfold natTextPadded
  have hzeros : ∀ c ∈ List.replicate (w - (natText n).length) (ch '0'),
      (digitValue 10 c).isSome = true := by
    intro c hc
    rw [List.eq_of_mem_replicate hc]
    decide
  rw [leadingValue_append_of_digits hzeros, leadingValue_zeros, Nat.zero_mul, leadingValue_natText]

theorem length_natTextPadded {w n : ℕ} (hw : 0 < w) (h : n < 10 ^ w) : (natTextPadded w n).length = w := by
  have hle := length_natText_le hw h
  unfold natTextPadded
  rw [List.length_append, List.length_replicate]
  omega

theorem natTextPadded_ne_nil (w n : ℕ) : natTextPadded w n ≠ [] :=
  List.append_ne_nil_of_right_ne_nil _ (natText_ne_nil n)

/-! ## Fields -/

/-- A text that `%wd` takes for `v`: white space, a sign or none, and digits. -/
def Field (w : ℕ) (v : ℤ) (field : Bytes) : Prop :=
  ∃ ws sign digits, (∀ c ∈ ws, isSpace c = true) ∧ Sign sign ∧ digits ≠ [] ∧
    (∀ c ∈ digits, isDigit c = true) ∧ sign.length + digits.length ≤ w ∧
    field = ws ++ (sign ++ digits) ∧ v = signedValue sign (leadingValue 10 0 digits)

theorem Sign.length_le {sign : Bytes} (h : Sign sign) : sign.length ≤ 1 := by
  rcases h with rfl | rfl | rfl <;> decide

theorem sscanfInt_of_field {w : ℕ} {v : ℤ} {field rest : Bytes} (h : Field w v field)
    (hrest : ∀ c ∈ rest.head?, isDigit c = false) : sscanfInt w (field ++ rest) = some (v, rest) := by
  obtain ⟨ws, sign, digits, hws, hsign, hne, hdigits, hlength, rfl, rfl⟩ := h
  have hone := hsign.length_le
  have hpos := List.length_pos_iff.2 hne
  have htake : ((sign ++ (digits ++ rest)).takeWhile isSign).take (min 1 w) = sign := by
    have hstop : ∀ d ∈ (digits ++ rest).head?, isSign d = false := by
      obtain ⟨c, ds, rfl⟩ := List.exists_cons_of_ne_nil hne
      intro d hd
      cases hd
      exact (digit_ne (hdigits _ List.mem_cons_self)).2.1
    rw [(takeWhile_append_stop hsign.isSign hstop).1]
    exact List.take_of_length_le (by omega)
  have hspaces := (takeWhile_append_stop hws (hsign.isSpace_head hne hdigits rest)).2
  have hfull : digits.take (w - sign.length) = digits := List.take_of_length_le (by omega)
  rw [List.append_assoc, List.append_assoc]
  unfold sscanfInt signedValue
  simp only [hspaces, htake, List.drop_left, (takeWhile_append_stop hdigits hrest).1, hfull, if_neg hne]
  rw [← List.drop_drop, List.drop_left, List.drop_left]

theorem exists_field {w : ℕ} {v : ℤ} {s rest : Bytes} (hw : 0 < w)
    (h : sscanfInt w s = some (v, rest)) : ∃ field, Field w v field ∧ s = field ++ rest := by
  unfold sscanfInt at h
  dsimp only at h
  obtain ⟨sign, hsign, htake, hsplit, -⟩ := sign_split (s.dropWhile isSpace)
  rw [Nat.min_eq_left hw, htake] at h
  split at h
  · cases h
  · next hne =>
    obtain ⟨hv, hrest⟩ := Prod.mk.inj (Option.some.inj h)
    have hspaces := List.takeWhile_append_dropWhile (p := isSpace) (l := s)
    generalize s.dropWhile isSpace = u at *
    have hprefix := (List.take_prefix (w - sign.length) _).trans
      (List.takeWhile_prefix (l := u.drop sign.length) isDigit)
    have hdigit : ∀ c ∈ ((u.drop sign.length).takeWhile isDigit).take (w - sign.length),
        isDigit c = true := fun c hc => List.mem_takeWhile_imp (List.mem_of_mem_take hc)
    have hlength : (((u.drop sign.length).takeWhile isDigit).take (w - sign.length)).length ≤
        w - sign.length := List.length_take_le _ _
    generalize ((u.drop sign.length).takeWhile isDigit).take (w - sign.length) = digits at *
    obtain ⟨more, hmore⟩ := hprefix
    have hone := hsign.length_le
    refine ⟨s.takeWhile isSpace ++ (sign ++ digits), ⟨_, sign, digits,
      fun c hc => List.mem_takeWhile_imp hc, hsign, hne, hdigit, by omega, rfl, hv.symm⟩, ?_⟩
    rw [← List.drop_drop, ← hmore, List.drop_left] at hrest
    rw [← hrest, List.append_assoc, List.append_assoc, hmore, ← hsplit, hspaces]

theorem Field.ne_nil {w : ℕ} {v : ℤ} {field : Bytes} (h : Field w v field) : field ≠ [] := by
  obtain ⟨ws, sign, digits, -, -, hne, -, -, rfl, -⟩ := h
  exact List.append_ne_nil_of_right_ne_nil _ (List.append_ne_nil_of_right_ne_nil _ hne)

/-- A field ends with a digit. -/
theorem Field.getLast {w : ℕ} {v : ℤ} {field : Bytes} (h : Field w v field) :
    ∃ front c, field = front ++ [c] ∧ isDigit c = true := by
  obtain ⟨ws, sign, digits, -, -, hne, hdigits, -, rfl, -⟩ := h
  refine ⟨ws ++ (sign ++ digits.dropLast), digits.getLast hne, ?_, hdigits _ (List.getLast_mem hne)⟩
  rw [List.append_assoc, List.append_assoc, List.dropLast_concat_getLast]

theorem Field.mem {w : ℕ} {v : ℤ} {field : Bytes} (h : Field w v field) {c : UInt8} (hc : c ∈ field) :
    isSpace c = true ∨ isSign c = true ∨ isDigit c = true := by
  obtain ⟨ws, sign, digits, hws, hsign, -, hdigits, -, rfl, -⟩ := h
  rcases List.mem_append.1 hc with h | h
  · exact .inl (hws c h)
  · rcases List.mem_append.1 h with h | h
    · exact .inr (.inl (hsign.isSign c h))
    · exact .inr (.inr (hdigits c h))

/-- Behind a digit a field has only digits. -/
theorem Field.pairwise {w : ℕ} {v : ℤ} {field : Bytes} (h : Field w v field) :
    field.Pairwise fun c d => isDigit c = true → isDigit d = true := by
  obtain ⟨ws, sign, digits, hws, hsign, -, hdigits, -, rfl, -⟩ := h
  have hfront : ∀ c ∈ ws ++ sign, isDigit c ≠ true := by
    intro c hc hdigit
    obtain ⟨hspace, hnot, -⟩ := digit_ne hdigit
    rcases List.mem_append.1 hc with hc | hc
    · rw [hws c hc] at hspace
      cases hspace
    · rw [hsign.isSign c hc] at hnot
      cases hnot
  rw [← List.append_assoc, List.pairwise_append]
  exact ⟨List.pairwise_of_forall_mem_list fun c hc _ _ hdigit => absurd hdigit (hfront c hc),
    List.pairwise_of_forall_mem_list fun _ _ d hd _ => hdigits d hd, fun _ _ d hd _ => hdigits d hd⟩

/-- The value of a field has no more digits than the field is wide. -/
theorem Field.natAbs_lt {w : ℕ} {v : ℤ} {field : Bytes} (h : Field w v field) :
    v.natAbs < 10 ^ w := by
  obtain ⟨ws, sign, digits, -, -, -, -, hlength, -, rfl⟩ := h
  have hlt := leadingValue_lt (by decide : 0 < 10) 0 digits
  rw [Nat.zero_add, Nat.one_mul] at hlt
  have hpow : 10 ^ digits.length ≤ 10 ^ w := Nat.pow_le_pow_right (by decide) (by omega)
  have habs : (signedValue sign (leadingValue 10 0 digits)).natAbs = leadingValue 10 0 digits := by
    unfold signedValue
    split <;> omega
  rw [habs]
  exact hlt.trans_le hpow

/-- What `printf` pads with zeros is a field. -/
theorem field_natTextPadded {w n : ℕ} (hw : 0 < w) (h : n < 10 ^ w) : Field w n (natTextPadded w n) := by
  refine ⟨[], [], natTextPadded w n, by simp, .inl rfl, natTextPadded_ne_nil w n,
    fun c hc => isDigit_natTextPadded hc, ?_, rfl, ?_⟩
  · rw [length_natTextPadded hw h]
    simp
  · rw [leadingValue_natTextPadded]
    rfl

/-! ## Three fields -/

/-- Three fields with `sep` between them, the first of at most `w` characters. -/
def ThreeFields (w : ℕ) (sep : UInt8) (a b c : ℤ) (text : Bytes) : Prop :=
  ∃ x y z, Field w a x ∧ Field 2 b y ∧ Field 2 c z ∧ text = x ++ sep :: (y ++ sep :: z)

section

variable {w : ℕ} {sep : UInt8} {a b c : ℤ} {text rest : Bytes}

theorem ThreeFields.mem (h : ThreeFields w sep a b c text) {d : UInt8} (hd : d ∈ text) :
    isSpace d = true ∨ isSign d = true ∨ isDigit d = true ∨ d = sep := by
  obtain ⟨x, y, z, hx, hy, hz, rfl⟩ := h
  simp only [List.mem_append, List.mem_cons] at hd
  rcases hd with hd | rfl | hd | rfl | hd
  · have := hx.mem hd
    tauto
  · simp
  · have := hy.mem hd
    tauto
  · simp
  · have := hz.mem hd
    tauto

theorem ThreeFields.notMem (h : ThreeFields w sep a b c text) {d : UInt8}
    (hd : ¬(isSpace d = true ∨ isSign d = true ∨ isDigit d = true ∨ d = sep)) : d ∉ text :=
  fun hmem => hd (h.mem hmem)

/-- Three fields end with a digit. -/
theorem ThreeFields.getLast (h : ThreeFields w sep a b c text) :
    ∃ front d, text = front ++ [d] ∧ isDigit d = true := by
  obtain ⟨x, y, z, -, -, hz, rfl⟩ := h
  obtain ⟨front, d, rfl, hd⟩ := hz.getLast
  exact ⟨x ++ sep :: (y ++ sep :: front), d, by simp, hd⟩

theorem ThreeFields.natAbs_lt (h : ThreeFields w sep a b c text) :
    a.natAbs < 10 ^ w ∧ b.natAbs < 10 ^ 2 ∧ c.natAbs < 10 ^ 2 := by
  obtain ⟨x, y, z, hx, hy, hz, -⟩ := h
  exact ⟨hx.natAbs_lt, hy.natAbs_lt, hz.natAbs_lt⟩

theorem sscanfThree_of_fields (h : ThreeFields w sep a b c text) (hsep : isDigit sep = false)
    (hrest : ∀ d ∈ rest.head?, isDigit d = false) :
    sscanfThree w sep (text ++ rest) = some (a, b, c) := by
  obtain ⟨x, y, z, hx, hy, hz, rfl⟩ := h
  have hhead : ∀ {s : Bytes}, ∀ d ∈ (sep :: s).head?, isDigit d = false := by
    intro s d hd
    cases hd
    exact hsep
  have hfirst : sscanfInt w (x ++ sep :: (y ++ sep :: (z ++ rest))) = _ := sscanfInt_of_field hx hhead
  have hsecond : sscanfInt 2 (y ++ sep :: (z ++ rest)) = _ := sscanfInt_of_field hy hhead
  have hthird := sscanfInt_of_field hz hrest
  have htext : (x ++ sep :: (y ++ sep :: z)) ++ rest = x ++ sep :: (y ++ sep :: (z ++ rest)) := by
    simp
  rw [htext]
  unfold sscanfThree
  simp [hfirst, hsecond, hthird]

/-- What is read begins with a field and what is to separate it from the next. -/
theorem exists_first_field (hw : 0 < w) (h : sscanfThree w sep text = some (a, b, c)) :
    ∃ first more, Field w a first ∧ text = first ++ sep :: more := by
  unfold sscanfThree at h
  obtain ⟨⟨a', s⟩, hfirst, hsecond⟩ := Option.bind_eq_some_iff.1 h
  obtain ⟨first, hfield, rfl⟩ := exists_field hw hfirst
  dsimp only at hsecond
  split at hsecond
  · cases hsecond
  · next hsep =>
    rw [not_not] at hsep
    obtain ⟨⟨b', s'⟩, -, hthird⟩ := Option.bind_eq_some_iff.1 hsecond
    dsimp only at hthird
    split at hthird
    · cases hthird
    · obtain ⟨⟨c', s''⟩, -, hlast⟩ := Option.bind_eq_some_iff.1 hthird
      obtain ⟨more, rfl⟩ := List.head?_eq_some_iff.1 hsep
      cases hlast
      exact ⟨first, more, hfield, rfl⟩

end

end CString
