import FrostlakeOdbc.Lib.Client
import Mathlib.Logic.Function.Basic

/-!
# Programs over a heap

A program that keeps its data in allocated blocks is a client of the heap: it asks for `realloc`, `free`
and stores, and holds nothing but addresses, with 0 for the null pointer. `heapMonitor` watches the
heap: an access has to stay inside a live block and only live blocks are moved or given back; an
allocation is answered with the null pointer, or with a block of its own that begins with what the old
one held.

The rules speak of one block and the rest of the heap: `Apart rest p b blocks` says that the live blocks
are those of `rest` and the block `b` at `p`.
-/

namespace Exchange

open Client

variable {α : Type}

inductive HeapCall (α : Type) : Type where
  | realloc (p size : ℕ)
  | store (p offset : ℕ) (cells : List α)
  | free (p : ℕ)
  deriving DecidableEq

/-- What an allocation is answered with: the address, and the block there as it is found. -/
structure Allocated (α : Type) where
  address : ℕ
  cells : List α

/-- The live blocks by their addresses, and whether an allocation has failed. -/
structure Heap (α : Type) where
  blocks : ℕ → Option (List α)
  exhausted : Bool

/-- A block with the cells from `offset` on written over. -/
def overwrite (b : List α) (offset : ℕ) (cells : List α) : List α :=
  b.take offset ++ cells ++ b.drop (offset + cells.length)

theorem length_overwrite {b : List α} {offset : ℕ} {cells : List α}
    (h : offset + cells.length ≤ b.length) : (overwrite b offset cells).length = b.length := by
  unfold overwrite
  simp only [List.length_append, List.length_take, List.length_drop]
  omega

/-- What stands in front of the cells that are written stays. -/
theorem append_prefix_overwrite {s b : List α} (h : s <+: b) (cells : List α) :
    s ++ cells <+: overwrite b s.length cells := by
  obtain ⟨t, rfl⟩ := h
  unfold overwrite
  rw [List.take_left]
  exact List.prefix_append _ _

namespace Heap

/-- A pointer that may be handed back to the allocator. -/
def Live (h : Heap α) (p : ℕ) : Prop := p = 0 ∨ (h.blocks p).isSome = true

def next (h : Heap α) : HeapCall α → Allocated α → Heap α
  | .realloc p _, r =>
      if r.address = 0 then { h with exhausted := true }
      else { h with
        blocks := Function.update (Function.update h.blocks p none) r.address (some r.cells) }
  | .store p offset cells, _ =>
      { h with
        blocks := Function.update h.blocks p ((h.blocks p).map (overwrite · offset cells)) }
  | .free p, _ => { h with blocks := Function.update h.blocks p none }

theorem next_failed (h : Heap α) (p size : ℕ) {r : Allocated α} (hr : r.address = 0) :
    h.next (.realloc p size) r = { h with exhausted := true } := if_pos hr

theorem next_moved (h : Heap α) (p size : ℕ) {r : Allocated α} (hr : r.address ≠ 0) :
    h.next (.realloc p size) r = { h with
      blocks := Function.update (Function.update h.blocks p none) r.address (some r.cells) } :=
  if_neg hr

def Allows (h : Heap α) : HeapCall α → Prop
  | .realloc p _ => h.Live p
  | .store p offset cells => ∃ b, h.blocks p = some b ∧ offset + cells.length ≤ b.length
  | .free p => h.Live p

/-- An allocation fails, or moves a block to where none is live and keeps what it held. -/
def Admits (limit : ℕ) (h : Heap α) : HeapCall α → Allocated α → Prop
  | .realloc p size, r => r.address ≠ 0 →
      size < limit ∧ (r.address = p ∨ h.blocks r.address = none) ∧ r.cells.length = size ∧
        ((h.blocks p).getD []).take size <+: r.cells
  | _, _ => True

instance [DecidableEq α] (limit : ℕ) (h : Heap α) (q : HeapCall α) (r : Allocated α) :
    Decidable (h.Admits limit q r) :=
  match q with
  | .realloc p size => inferInstanceAs (Decidable (r.address ≠ 0 →
      size < limit ∧ (r.address = p ∨ h.blocks r.address = none) ∧ r.cells.length = size ∧
        ((h.blocks p).getD []).take size <+: r.cells))
  | .store .. => .isTrue trivial
  | .free _ => .isTrue trivial

end Heap

/-- The monitor of a heap that hands out blocks of fewer than `limit` cells. -/
def heapMonitor (α : Type) (limit : ℕ) : Monitor (HeapCall α) (Allocated α) (Heap α) where
  next := Heap.next
  allows := Heap.Allows
  admits := Heap.Admits limit

instance [DecidableEq α] (limit : ℕ) (h : Heap α) (q : HeapCall α) (r : Allocated α) :
    Decidable ((heapMonitor α limit).admits h q r) :=
  inferInstanceAs (Decidable (h.Admits limit q r))

/-! ## One block -/

/-- The live blocks are `rest` and the block `b` at `p`. -/
structure Apart (rest : ℕ → Option (List α)) (p : ℕ) (b : List α) (blocks : ℕ → Option (List α)) :
    Prop where
  nonzero : p ≠ 0
  free : rest p = none
  blocks : blocks = Function.update rest p (some b)

theorem Apart.get {rest blocks : ℕ → Option (List α)} {p : ℕ} {b : List α}
    (h : Apart rest p b blocks) : blocks p = some b := by
  rw [h.blocks, Function.update_self]

section

variable {limit : ℕ} {rest : ℕ → Option (List α)} {h : Heap α} {p : ℕ} {b : List α}

/-- A block is allocated next to the others, or the allocation fails and they are left alone. -/
theorem holds_malloc (hnull : h.blocks 0 = none) (size : ℕ) :
    (heapMonitor α limit).Holds (call (.realloc 0 size)) (fun r h' =>
      if r.address = 0 then h' = { h with exhausted := true }
      else size < limit ∧ r.cells.length = size ∧ h'.exhausted = h.exhausted ∧
        Apart h.blocks r.address r.cells h'.blocks) h := by
  refine ⟨.inl rfl, fun r hadmits => Monitor.holds_pure ?_⟩
  by_cases hr : r.address = 0
  · rw [if_pos hr]
    exact h.next_failed _ size hr
  · obtain ⟨hlimit, haddress, hsize, -⟩ := hadmits hr
    have hnext : (heapMonitor α limit).next h (.realloc 0 size) r = _ := h.next_moved _ size hr
    rw [if_neg hr, hnext]
    refine ⟨hlimit, hsize, rfl, hr, ?_, ?_⟩
    · exact haddress.elim (fun hzero => absurd hzero hr) id
    · rw [← hnull, Function.update_eq_self]

/-- A block is moved with what it holds, or the allocation fails and it stays. -/
theorem holds_realloc (hapart : Apart rest p b h.blocks) {size : ℕ} (hle : b.length ≤ size) :
    (heapMonitor α limit).Holds (call (.realloc p size)) (fun r h' =>
      if r.address = 0 then h' = { h with exhausted := true }
      else size < limit ∧ r.cells.length = size ∧ h'.exhausted = h.exhausted ∧ b <+: r.cells ∧
        Apart rest r.address r.cells h'.blocks) h := by
  refine ⟨.inr (by rw [hapart.get]; rfl), fun r hadmits => Monitor.holds_pure ?_⟩
  by_cases hr : r.address = 0
  · rw [if_pos hr]
    exact h.next_failed _ size hr
  · obtain ⟨hlimit, haddress, hsize, hkeeps⟩ := hadmits hr
    have hnext : (heapMonitor α limit).next h (.realloc p size) r = _ := h.next_moved _ size hr
    rw [hapart.get, Option.getD_some, List.take_of_length_le hle] at hkeeps
    rw [if_neg hr, hnext]
    refine ⟨hlimit, hsize, rfl, hkeeps, hr, ?_, ?_⟩
    · rcases haddress with heq | hfree
      · rw [heq]
        exact hapart.free
      · -- another address than the old one, which is live
        have hne : r.address ≠ p := by
          rintro heq
          rw [heq, hapart.get] at hfree
          cases hfree
        rwa [hapart.blocks, Function.update_of_ne hne] at hfree
    · rw [hapart.blocks, Function.update_idem, ← hapart.free, Function.update_eq_self]

theorem holds_store (hapart : Apart rest p b h.blocks) {offset : ℕ} {cells : List α}
    (hle : offset + cells.length ≤ b.length) :
    (heapMonitor α limit).Holds (call (.store p offset cells)) (fun _ h' =>
      h'.exhausted = h.exhausted ∧ Apart rest p (overwrite b offset cells) h'.blocks) h := by
  refine ⟨⟨b, hapart.get, hle⟩, fun r _ => ⟨rfl, hapart.nonzero, hapart.free, ?_⟩⟩
  change Function.update h.blocks p _ = _
  rw [hapart.get, hapart.blocks, Function.update_idem]
  rfl

theorem holds_free (hapart : Apart rest p b h.blocks) :
    (heapMonitor α limit).Holds (call (.free p))
      (fun _ h' => h'.exhausted = h.exhausted ∧ h'.blocks = rest) h := by
  refine ⟨.inr (by rw [hapart.get]; rfl), fun r _ => ⟨rfl, ?_⟩⟩
  change Function.update h.blocks p none = rest
  rw [hapart.blocks, Function.update_idem, ← hapart.free, Function.update_eq_self]

theorem holds_free_null (hnull : h.blocks 0 = none) :
    (heapMonitor α limit).Holds (call (.free 0)) (fun _ h' => h' = h) h := by
  refine ⟨.inl rfl, fun r _ => ?_⟩
  change ({ h with blocks := Function.update h.blocks 0 none } : Heap α) = h
  rw [← hnull, Function.update_eq_self]

end

end Exchange
