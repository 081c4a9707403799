import FrostlakeOdbc.Lib.JsonGrammar

/-!
# A value is no larger than its text

`SpelledIn num str n v`: the value `v` has a text of at most `n` bytes. An array or an object that has
one has at most `n` children, each of which has one again.
-/

namespace JsonText

open CString

/-- Some text of at most `n` bytes spells the value. -/
def SpelledIn (num : Bytes → Prop) (str : Bytes → Bytes → Prop) (n : ℕ) (v : Value) : Prop :=
  ∃ depth s, SpellsWith num str depth v s ∧ s.length ≤ n

variable {β : Type} {num : Bytes → Prop} {str : Bytes → Bytes → Prop} {n : ℕ}

/-- Between two items stands a comma. -/
theorem Separated.length_le {item : β → Bytes → Prop} {xs : List β} {s : Bytes}
    (h : Separated item xs s) : xs.length ≤ s.length + 1 := by
  induction h with
  | one _ => simp
  | cons _ _ ih =>
    simp only [List.length_cons, List.length_append]
    omega

/-- The text of an item is a part of the whole. -/
theorem Separated.exists_item {item : β → Bytes → Prop} {xs : List β} {s : Bytes}
    (h : Separated item xs s) {x : β} (hx : x ∈ xs) : ∃ t, item x t ∧ t.length ≤ s.length := by
  induction h with
  | one h => exact ⟨_, List.mem_singleton.1 hx ▸ h, le_rfl⟩
  | @cons y ys s t hy _ ih =>
    simp only [List.length_append, List.length_cons]
    rcases List.mem_cons.1 hx with rfl | hx
    · exact ⟨s, hy, by omega⟩
    · obtain ⟨u, hu, hle⟩ := ih hx
      exact ⟨u, hu, by omega⟩

theorem Padded.exists_self {P : Bytes → Prop} {s : Bytes} (h : Padded P s) :
    ∃ t, P t ∧ t.length ≤ s.length := by
  obtain ⟨a, t, b, -, ht, -, rfl⟩ := h
  refine ⟨t, ht, ?_⟩
  simp only [List.length_append]
  omega

theorem SpelledIn.of_padded {depth : ℕ} {v : Value} {s : Bytes}
    (h : Padded (SpellsWith num str depth v) s) : SpelledIn num str s.length v := by
  obtain ⟨t, ht, hle⟩ := h.exists_self
  exact ⟨depth, t, ht, hle⟩

theorem SpelledIn.array {vs : List Value} (h : SpelledIn num str n (.array vs)) :
    vs.length ≤ n ∧ ∀ v ∈ vs, SpelledIn num str n v := by
  obtain ⟨depth, s, hs, hle⟩ := h
  cases depth with
  | zero => exact hs.elim
  | succ depth =>
    obtain ⟨body, rfl, ⟨rfl, -⟩ | hsep⟩ := hs
    · exact ⟨Nat.zero_le n, fun v hv => absurd hv List.not_mem_nil⟩
    · simp only [List.length_cons, List.length_append, List.length_nil] at hle
      refine ⟨by have := hsep.length_le; omega, fun v hv => ?_⟩
      obtain ⟨t, ht, htle⟩ := hsep.exists_item hv
      obtain ⟨u, hu, hule⟩ := ht.exists_self
      exact ⟨depth, u, hu, by omega⟩

theorem SpelledIn.object {ms : List (Bytes × Value)} (h : SpelledIn num str n (.object ms)) :
    ms.length ≤ n ∧ ∀ m ∈ ms, SpelledIn num str n m.2 := by
  obtain ⟨depth, s, hs, hle⟩ := h
  cases depth with
  | zero => exact hs.elim
  | succ depth =>
    obtain ⟨body, rfl, ⟨rfl, -⟩ | hsep⟩ := hs
    · exact ⟨Nat.zero_le n, fun m hm => absurd hm List.not_mem_nil⟩
    · simp only [List.length_cons, List.length_append, List.length_nil] at hle
      refine ⟨by have := hsep.length_le; omega, fun m hm => ?_⟩
      obtain ⟨t, ht, htle⟩ := hsep.exists_item hm
      -- the value of a member stands behind its key and the colon
      obtain ⟨a, key, b, w, -, -, -, hw, rfl⟩ := ht
      obtain ⟨u, hu, hule⟩ := hw.exists_self
      simp only [List.length_append, List.length_cons] at htle
      exact ⟨depth, u, hu, by omega⟩

end JsonText
