import Mathlib.Data.List.Basic
import Mathlib.Logic.Function.Basic

/-!
# Arrays of slots that grow

An array whose slots hold a value or none, and that grows by empty slots up to the one that is written,
stands for a map from indices to values (`Slots.view`). Growing leaves the map alone, and writing a slot
updates it at one index. An array that ends in a slot that holds something, its other slots empty as
they were made, is the only such array of its map (`Canonical`).
-/

namespace Slots

variable {α β : Type} {v : α → Option β} {empty : α}

/-- The array with a slot `i`, and empty ones in front of it if there were none. -/
def grow (empty : α) (l : List α) (i : ℕ) : List α := l ++ List.replicate (i + 1 - l.length) empty

/-- The map an array of slots stands for, where `v` tells what a slot holds. -/
def view (v : α → Option β) (l : List α) (i : ℕ) : Option β := l[i]?.bind v

theorem view_nil (v : α → Option β) : view v [] = fun _ => none := rfl

theorem lt_length_grow (empty : α) (l : List α) (i : ℕ) : i < (grow empty l i).length := by
  unfold grow
  rw [List.length_append, List.length_replicate]
  omega

theorem getElem?_grow (empty : α) (l : List α) (i j : ℕ) :
    (grow empty l i)[j]? = l[j]? ∨ l[j]? = none ∧ (grow empty l i)[j]? = some empty := by
  unfold grow
  by_cases hj : j < l.length
  · exact .inl (List.getElem?_append_left hj)
  · have hle : l.length ≤ j := Nat.le_of_not_lt hj
    have hnone : l[j]? = none := List.getElem?_eq_none_iff.2 hle
    rw [List.getElem?_append_right hle, List.getElem?_replicate, hnone]
    split
    · exact .inr ⟨rfl, rfl⟩
    · exact .inl rfl

theorem view_grow (hempty : v empty = none) (l : List α) (i : ℕ) :
    view v (grow empty l i) = view v l := by
  funext j
  unfold view
  rcases getElem?_grow empty l i j with h | ⟨hnone, hsome⟩
  · rw [h]
  · rw [hnone, hsome]
    exact hempty

/-- The slot that is written is there, as it was or empty. -/
theorem getElem?_grow_self (l : List α) (i : ℕ) :
    (grow empty l i)[i]? = some (l[i]?.getD empty) := by
  rcases getElem?_grow empty l i i with h | ⟨hnone, hsome⟩
  · have hlt := lt_length_grow empty l i
    rw [List.getElem?_eq_getElem hlt] at h ⊢
    rw [← h]
    rfl
  · rw [hnone, hsome]
    rfl

theorem view_modify (v : α → Option β) (l : List α) (i : ℕ) (f : α → α) :
    view v (l.modify i f) = Function.update (view v l) i (l[i]?.bind fun x => v (f x)) := by
  funext j
  unfold view
  rw [List.getElem?_modify]
  by_cases hj : i = j
  · subst hj
    rw [Function.update_self]
    cases l[i]? with
    | none => rfl
    | some x => simp
  · rw [Function.update_of_ne (Ne.symm hj)]
    simp [hj]

/-- Changing a slot that is made if need be. -/
theorem view_modify_grow (hempty : v empty = none) (l : List α) (i : ℕ) (f : α → α) :
    view v ((grow empty l i).modify i f) =
      Function.update (view v l) i (v (f (l[i]?.getD empty))) := by
  rw [view_modify, view_grow hempty, getElem?_grow_self]
  rfl

/-- Writing a slot that is made if need be. -/
theorem view_set_grow (hempty : v empty = none) (l : List α) (i : ℕ) (x : α) :
    view v ((grow empty l i).set i x) = Function.update (view v l) i (v x) := by
  rw [List.set_eq_modify]
  exact view_modify_grow hempty l i fun _ => x

/-! ## Canonical arrays -/

/-- The slots that hold nothing are as they are made, and none of them is the last. -/
structure Canonical (v : α → Option β) (empty : α) (l : List α) : Prop where
  unset : ∀ x ∈ l, v x = none → x = empty
  last : ∀ x, l.getLast? = some x → v x ≠ none

theorem canonical_nil (v : α → Option β) (empty : α) : Canonical v empty [] := by
  constructor
  · intro x hx
    cases hx
  · intro x hx
    cases hx

theorem Canonical.set_grow {l : List α} (h : Canonical v empty l) (i : ℕ) {x : α} (hx : v x ≠ none) :
    Canonical v empty ((grow empty l i).set i x) := by
  constructor
  · intro y hy hnone
    rcases List.mem_or_eq_of_mem_set hy with hy | rfl
    · rcases List.mem_append.1 hy with hy | hy
      · exact h.unset y hy hnone
      · exact List.eq_of_mem_replicate hy
    · exact absurd hnone hx
  · intro y hy
    rw [List.getLast?_eq_getElem?, List.length_set] at hy
    by_cases hlast : i = (grow empty l i).length - 1
    · rw [← hlast, List.getElem?_set_self (lt_length_grow empty l i)] at hy
      cases hy
      exact hx
    · -- the slot is not the last one, so that the array has not grown
      have hlt := lt_length_grow empty l i
      have hgrown : grow empty l i = l := by
        unfold grow at hlast hlt ⊢
        rw [List.length_append, List.length_replicate] at hlast hlt
        rw [Nat.sub_eq_zero_of_le (by omega)]
        exact List.append_nil l
      rw [List.getElem?_set_ne hlast, hgrown, ← List.getLast?_eq_getElem?] at hy
      exact h.last y hy

theorem Canonical.modify {l : List α} (h : Canonical v empty l) (i : ℕ) {f : α → α}
    (hset : ∀ x, v x ≠ none → v (f x) ≠ none) (hempty : f empty = empty) :
    Canonical v empty (l.modify i f) := by
  have hf : ∀ x ∈ l, v (f x) = none → f x = empty := by
    intro x hx hnone
    have hnone : v x = none := by
      by_contra hsome
      exact hset x hsome hnone
    rw [h.unset x hx hnone, hempty]
  constructor
  · intro y hy hnone
    obtain ⟨j, hj⟩ := List.mem_iff_getElem?.1 hy
    rw [List.getElem?_modify] at hj
    obtain ⟨x, hx, rfl⟩ := Option.map_eq_some_iff.1 hj
    have hmem := List.mem_of_getElem? hx
    by_cases hij : i = j
    · rw [if_pos hij] at hnone ⊢
      exact hf x hmem hnone
    · rw [if_neg hij] at hnone ⊢
      exact h.unset x hmem hnone
  · intro y hy
    rw [List.getLast?_eq_getElem?, List.length_modify, List.getElem?_modify] at hy
    obtain ⟨x, hx, rfl⟩ := Option.map_eq_some_iff.1 hy
    rw [← List.getLast?_eq_getElem?] at hx
    have hsome := h.last x hx
    split
    · exact hset x hsome
    · exact hsome

theorem Canonical.length_le {l₁ l₂ : List α} (h₁ : Canonical v empty l₁)
    (hview : view v l₁ = view v l₂) : l₁.length ≤ l₂.length := by
  by_contra hlt
  have hlast : l₁.length - 1 < l₁.length := by omega
  have hx : l₁.getLast? = some l₁[l₁.length - 1] := by
    rw [List.getLast?_eq_getElem?, List.getElem?_eq_getElem hlast]
  apply h₁.last _ hx
  have hnone : l₂[l₁.length - 1]? = none := List.getElem?_eq_none_iff.2 (by omega)
  have hat := congrFun hview (l₁.length - 1)
  unfold view at hat
  rwa [List.getElem?_eq_getElem hlast, hnone] at hat

/-- A canonical array is determined by its map, where what a slot holds determines the slot. -/
theorem Canonical.eq_of_view_eq {l₁ l₂ : List α} (h₁ : Canonical v empty l₁)
    (h₂ : Canonical v empty l₂) (hinj : ∀ x y, v x = v y → v x ≠ none → x = y)
    (hview : view v l₁ = view v l₂) : l₁ = l₂ := by
  have hlength := Nat.le_antisymm (h₁.length_le hview) (h₂.length_le hview.symm)
  apply List.ext_getElem hlength
  intro i hi₁ hi₂
  have hat := congrFun hview i
  unfold view at hat
  rw [List.getElem?_eq_getElem hi₁, List.getElem?_eq_getElem hi₂] at hat
  replace hat : v l₁[i] = v l₂[i] := hat
  by_cases hnone : v l₁[i] = none
  · rw [h₁.unset _ (List.getElem_mem hi₁) hnone, h₂.unset _ (List.getElem_mem hi₂) (hat ▸ hnone)]
  · exact hinj _ _ hat hnone

/-! ## Numbers from 1 on -/

/-- A map of indices as a map of numbers, which start with 1. -/
def numbered (m : ℕ → Option β) : ℕ → Option β
  | 0 => none
  | n + 1 => m n

theorem numbered_injective : Function.Injective (numbered (β := β)) := by
  intro m m' h
  funext n
  exact congrFun h (n + 1)

theorem numbered_none : numbered (fun _ => (none : Option β)) = fun _ => none := by
  funext n
  cases n <;> rfl

theorem numbered_update (m : ℕ → Option β) (i : ℕ) (x : Option β) :
    numbered (Function.update m i x) = Function.update (numbered m) (i + 1) x := by
  funext n
  cases n with
  | zero => rw [Function.update_of_ne (Nat.succ_ne_zero i).symm]; rfl
  | succ n =>
    by_cases hn : n = i
    · subst hn
      rw [Function.update_self]
      exact Function.update_self ..
    · rw [Function.update_of_ne (by simpa using hn)]
      exact Function.update_of_ne hn ..

end Slots
