import FrostlakeOdbc.Lib.CString

/-!
# UTF-8

A well-formed text is a row of blocks, one for each character: a lead byte, and up to three
continuation bytes behind it.
-/

namespace Utf8

open CString

/-- A continuation byte (`10xxxxxx`). -/
def isContinuation (c : UInt8) : Bool := c &&& 0xC0 = 0x80

/-- A text that encodes some characters. -/
def WellFormed (s : Bytes) : Prop := ∃ cs : List Char, s = cs.flatMap String.utf8EncodeChar

theorem isContinuation_tail (c : UInt8) : isContinuation (c &&& 0x3f ||| 0x80) = true := by
  apply forall_byte (P := fun c => isContinuation (c &&& 0x3f ||| 0x80) = true)
  decide +kernel

/-- The first byte of a block is no continuation byte. -/
theorem isContinuation_lead (c : UInt8) (h : c.IsUTF8FirstByte) : isContinuation c = false := by
  refine forall_byte (P := fun c => c.IsUTF8FirstByte → isContinuation c = false) ?_ c h
  unfold UInt8.IsUTF8FirstByte
  decide +kernel

/-- The block of a character. -/
theorem exists_block (c : Char) : ∃ lead tail, String.utf8EncodeChar c = lead :: tail ∧
    isContinuation lead = false ∧ (∀ b ∈ tail, isContinuation b = true) ∧ tail.length ≤ 3 := by
  have lead : ∀ b tail, String.utf8EncodeChar c = b :: tail → isContinuation b = false := by
    intro b tail h
    apply isContinuation_lead
    have hpos : 0 < (String.utf8EncodeChar c).length := by simp [h]
    have hfirst : ((String.utf8EncodeChar c)[0]).IsUTF8FirstByte :=
      UInt8.isUTF8FirstByte_getElem_utf8EncodeChar.2 rfl
    simpa [h] using hfirst
  have hsize : c.utf8Size = 1 ∨ c.utf8Size = 2 ∨ c.utf8Size = 3 ∨ c.utf8Size = 4 := by
    have hpos := c.utf8Size_pos
    have hle := c.utf8Size_le_four
    omega
  rcases hsize with h | h | h | h
  · have heq := String.utf8EncodeChar_eq_singleton h
    exact ⟨_, _, heq, lead _ _ heq, by simp, by simp⟩
  · have heq := String.utf8EncodeChar_eq_cons_cons h
    exact ⟨_, _, heq, lead _ _ heq, by simp [isContinuation_tail], by simp⟩
  · have heq := String.utf8EncodeChar_eq_cons_cons_cons h
    exact ⟨_, _, heq, lead _ _ heq, by simp [isContinuation_tail], by simp⟩
  · have heq := String.utf8EncodeChar_eq_cons_cons_cons_cons h
    exact ⟨_, _, heq, lead _ _ heq, by simp [isContinuation_tail], by simp⟩

namespace WellFormed

theorem nil : WellFormed [] := ⟨[], rfl⟩

/-- A well-formed text that is not empty starts with a lead byte. -/
theorem head {c : UInt8} {s : Bytes} (h : WellFormed (c :: s)) : isContinuation c = false := by
  obtain ⟨cs, h⟩ := h
  cases cs with
  | nil => simp at h
  | cons d ds =>
    obtain ⟨lead, tail, hblock, hlead, -, -⟩ := exists_block d
    rw [List.flatMap_cons, hblock, List.cons_append, List.cons.injEq] at h
    rw [h.1]
    exact hlead

theorem append {s t : Bytes} (hs : WellFormed s) (ht : WellFormed t) : WellFormed (s ++ t) := by
  obtain ⟨cs, rfl⟩ := hs
  obtain ⟨ds, rfl⟩ := ht
  exact ⟨cs ++ ds, by rw [List.flatMap_append]⟩

end WellFormed

/-- A well-formed text that is not empty is a block and a well-formed text. -/
theorem WellFormed.cases {s : Bytes} (h : WellFormed s) :
    s = [] ∨ ∃ lead tail rest, s = lead :: tail ++ rest ∧ (∀ b ∈ tail, isContinuation b = true) ∧
      tail.length ≤ 3 ∧ WellFormed (lead :: tail) ∧ WellFormed rest := by
  obtain ⟨cs, rfl⟩ := h
  cases cs with
  | nil => exact Or.inl rfl
  | cons c cs =>
    obtain ⟨lead, tail, hblock, -, htail, hlen⟩ := exists_block c
    refine Or.inr ⟨lead, tail, cs.flatMap String.utf8EncodeChar, ?_, htail, hlen, ?_, cs, rfl⟩
    · rw [List.flatMap_cons, hblock]
    · exact ⟨[c], by simp [hblock]⟩

end Utf8
