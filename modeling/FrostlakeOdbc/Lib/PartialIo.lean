import FrostlakeOdbc.Lib.Client
import Mathlib.Data.Int.Basic

/-!
# Partial writes and reads

A channel that takes part of what it is offered, and hands over what it has. `writeAll` offers what
is left until all of it is taken; `readAll` reads piece after piece into a buffer that is doubled when
there is no room for another piece. Both are told by what the calls of a run amount to, however the
channel divides the data: the writer has offered exactly what is left (`holds_writeAll`), and the
reader's pieces lie end to end inside its buffer (`holds_readAll`).
-/

namespace Exchange

variable {Q R G α : Type}

/-! ## Writing -/

/-- Offers `data` with `mk` until all of it is taken; `taken` is how much an answer says was. The
answer is whether all of it was. Every call that goes on takes something, so the length of the data
is enough fuel. -/
def writeAll (mk : List α → Q) (taken : R → ℤ) : ℕ → List α → Client Q R Bool
  | _, [] => pure true
  | 0, _ :: _ => pure false
  | fuel + 1, c :: data => do
      let r ← Client.call (mk (c :: data))
      if taken r ≤ 0 then return false
      else writeAll mk taken fuel ((c :: data).drop (taken r).toNat)

/-- What has to hold of a channel so that a writer gets through: `Inv rest` is the ghost state with
`rest` left, and `Stop` the one where the channel has taken less than it was offered. -/
theorem holds_writeAll {M : Monitor Q R G} {mk : List α → Q} {taken : R → ℤ}
    {Inv Stop : List α → G → Prop}
    (hstep : ∀ rest g, rest ≠ [] → Inv rest g → M.allows g (mk rest) ∧
      ∀ r, M.admits g (mk rest) r →
        if taken r ≤ 0 then Stop rest (M.next g (mk rest) r)
        else Inv (rest.drop (taken r).toNat) (M.next g (mk rest) r))
    {fuel : ℕ} {data : List α} (hfuel : data.length ≤ fuel) {g : G} (hg : Inv data g) :
    M.Holds (writeAll mk taken fuel data)
      (fun done g => if done = true then Inv [] g else ∃ rest, rest ≠ [] ∧ rest <:+ data ∧ Stop rest g)
      g := by
  induction fuel generalizing data g with
  | zero =>
    obtain rfl : data = [] := List.eq_nil_of_length_eq_zero (Nat.le_zero.1 hfuel)
    exact Monitor.holds_pure hg
  | succ fuel ih =>
    cases data with
    | nil => exact Monitor.holds_pure hg
    | cons c data =>
      have hne : c :: data ≠ [] := List.cons_ne_nil c data
      apply Monitor.holds_call_bind (hstep _ g hne hg).1
      intro r hadmits
      have hr := (hstep _ g hne hg).2 r hadmits
      by_cases hn : taken r ≤ 0
      · rw [if_pos hn] at hr ⊢
        exact Monitor.holds_pure ⟨c :: data, hne, List.suffix_rfl, hr⟩
      · rw [if_neg hn] at hr ⊢
        have hlen : ((c :: data).drop (taken r).toNat).length ≤ fuel := by
          simp only [List.length_drop, List.length_cons] at hfuel ⊢
          omega
        apply (ih hlen hr).mono
        intro done g'' h
        by_cases hdone : done = true
        · rwa [if_pos hdone] at h ⊢
        · rw [if_neg hdone] at h ⊢
          obtain ⟨rest, hrest, hsuffix, hstop⟩ := h
          exact ⟨rest, hrest, hsuffix.trans (List.drop_suffix _ _), hstop⟩

/-! ## Reading -/

/-- How far a reader has come. -/
inductive Reading (α : Type) : Type where
  /-- The channel has not come to its end. -/
  | unfinished
  | failed
  | whole (data : List α)

/-- The buffer of a reader is doubled when a piece and one more do not fit behind its contents. -/
def growFor (piece capacity length : ℕ) : ℕ :=
  if capacity < length + piece + 1 then capacity * 2 else capacity

/-- Reads with `mk`, which is given the size of the buffer and where in it to read to, until the
channel hands over nothing. `handed` is what an answer hands over, or that the call failed. -/
def readAll (mk : ℕ → ℕ → Q) (handed : R → Option (List α)) (piece : ℕ) :
    ℕ → ℕ → List α → Client Q R (Reading α)
  | 0, _, _ => pure .unfinished
  | fuel + 1, capacity, data => do
      let capacity := growFor piece capacity data.length
      let r ← Client.call (mk capacity data.length)
      match handed r with
      | none => return .failed
      | some [] => return .whole data
      | some (c :: more) => readAll mk handed piece fuel capacity (data ++ c :: more)

/-- A reader that has not come to the end has made all the calls it may make. -/
theorem length_of_unfinished {mk : ℕ → ℕ → Q} {handed : R → Option (List α)} {piece fuel capacity : ℕ}
    {data : List α} {t : List (Q × R)}
    (hrun : Client.Runs (readAll mk handed piece fuel capacity data) t .unfinished) :
    t.length = fuel := by
  induction fuel generalizing capacity data t with
  | zero => rw [(Client.runs_pure_iff.1 hrun).1, List.length_nil]
  | succ fuel ih =>
    obtain ⟨r, t', rfl, hrest⟩ := Client.runs_ask_iff.1 hrun
    rw [List.length_cons, Nat.add_right_cancel_iff]
    match hh : handed r with
    | none =>
      simp only [Client.bind, hh] at hrest
      cases (Client.runs_pure_iff.1 hrest).2
    | some [] =>
      simp only [Client.bind, hh] at hrest
      cases (Client.runs_pure_iff.1 hrest).2
    | some (c :: more) =>
      simp only [Client.bind, hh] at hrest
      exact ih hrest

/-- One doubling is always enough, and what is not used is at most as much again. -/
theorem growFor_bounds {piece capacity length : ℕ} (hpiece : piece < capacity)
    (hlen : length < capacity) (hcap : capacity ≤ 2 * (length + piece)) :
    length + piece < growFor piece capacity length ∧
      growFor piece capacity length ≤ 2 * (length + piece) := by
  unfold growFor
  split <;> omega

/-- What has to hold of a channel so that a reader gets through: `Inv data` is the ghost state with
`data` read. A call has room for a whole piece behind what is read, and one element more. -/
structure Readable (M : Monitor Q R G) (mk : ℕ → ℕ → Q) (handed : R → Option (List α)) (piece : ℕ)
    (Inv : List α → G → Prop) (Failed : G → Prop) (Ended : List α → G → Prop) : Prop where
  allows : ∀ {data capacity g}, Inv data g → data.length + piece < capacity →
    capacity ≤ 2 * (data.length + piece) → M.allows g (mk capacity data.length)
  failed : ∀ {data capacity g r}, Inv data g → M.admits g (mk capacity data.length) r →
    handed r = none → Failed (M.next g (mk capacity data.length) r)
  ended : ∀ {data capacity g r}, Inv data g → M.admits g (mk capacity data.length) r →
    handed r = some [] → Ended data (M.next g (mk capacity data.length) r)
  more : ∀ {data capacity g r more}, Inv data g → M.admits g (mk capacity data.length) r →
    handed r = some more → more ≠ [] → more.length ≤ piece ∧
      Inv (data ++ more) (M.next g (mk capacity data.length) r)

section

variable (Inv : List α → G → Prop) (Failed : G → Prop) (Ended : List α → G → Prop)

/-- What holds where a reader has come to `outcome`. -/
def AfterRead : Reading α → G → Prop
  | .unfinished, g => ∃ data, Inv data g
  | .failed, g => Failed g
  | .whole data, g => Ended data g

end

theorem holds_readAll {M : Monitor Q R G} {mk : ℕ → ℕ → Q} {handed : R → Option (List α)}
    {piece : ℕ} {Inv : List α → G → Prop} {Failed : G → Prop} {Ended : List α → G → Prop}
    (h : Readable M mk handed piece Inv Failed Ended) (fuel : ℕ) {capacity : ℕ} {data : List α}
    (hpiece : piece < capacity) (hlen : data.length < capacity)
    (hcap : capacity ≤ 2 * (data.length + piece)) {g : G} (hg : Inv data g) :
    M.Holds (readAll mk handed piece fuel capacity data) (AfterRead Inv Failed Ended) g := by
  induction fuel generalizing capacity data g with
  | zero => exact Monitor.holds_pure ⟨data, hg⟩
  | succ fuel ih =>
    have hgrown := growFor_bounds hpiece hlen hcap
    apply Monitor.holds_call_bind (h.allows hg hgrown.1 hgrown.2)
    intro r hr
    match hh : handed r with
    | none => exact Monitor.holds_pure (h.failed hg hr hh)
    | some [] => exact Monitor.holds_pure (h.ended hg hr hh)
    | some (c :: more) =>
      obtain ⟨hshort, hmore⟩ := h.more hg hr hh (List.cons_ne_nil c more)
      rw [List.length_cons] at hshort
      apply ih _ _ _ hmore
      · omega
      · rw [List.length_append, List.length_cons]
        omega
      · rw [List.length_append, List.length_cons]
        omega

end Exchange
