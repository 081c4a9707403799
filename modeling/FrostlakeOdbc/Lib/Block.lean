import FrostlakeOdbc.Lib.CString
import Mathlib.Data.List.DropRight

/-!
# Loops over a block of memory

A block is read byte by byte, and a read past its end is a fault (`none`). A loop that stays inside the
block comes to what it comes to on the bytes alone.
-/

namespace CString

section

variable {p : UInt8 → Bool}

/-- `while (p(*c)) c++;`: how far the pointer goes. -/
def passWhile (p : UInt8 → Bool) : Bytes → Option ℕ
  | [] => none
  | c :: rest => if p c then (passWhile p rest).map (1 + ·) else some 0

/-- The NUL behind a text stops a loop that does not pass it. -/
theorem passWhile_append_zero (hzero : p 0 = false) (s : Bytes) :
    passWhile p (s ++ [0]) = some (s.takeWhile p).length := by
  induction s with
  | nil => rw [List.nil_append, passWhile, hzero]; rfl
  | cons c s ih =>
    rw [List.cons_append, passWhile, ih, List.takeWhile_cons]
    cases p c with
    | true => rw [if_pos rfl, if_pos rfl, List.length_cons, Nat.add_comm, Option.map_some]
    | false => rfl

end

/-- `strlen`. -/
def strlen (c : Bytes) : Option ℕ := passWhile (· ≠ 0) c

/-- `strcspn`. -/
def strcspn (reject c : Bytes) : Option ℕ := passWhile (fun d => d ≠ 0 && d ∉ reject) c

/-- `strstr`: where `pat` is found in the text up to the NUL. -/
def strstr (pat c : Bytes) : Option (Option ℕ) := (strlen c).map fun n => find pat (c.take n)

section

variable {s : Bytes}

theorem takeWhile_ne_zero (hs : 0 ∉ s) : s.takeWhile (· ≠ 0) = s := cstr_eq_self hs

theorem strlen_append_zero (hs : 0 ∉ s) : strlen (s ++ [0]) = some s.length := by
  unfold strlen
  rw [passWhile_append_zero rfl, takeWhile_ne_zero hs]

theorem strstr_append_zero (hs : 0 ∉ s) (pat : Bytes) : strstr pat (s ++ [0]) = some (find pat s) := by
  unfold strstr
  rw [strlen_append_zero hs, Option.map_some, List.take_left]

theorem strcspn_append_zero (hs : 0 ∉ s) (reject : Bytes) :
    strcspn reject (s ++ [0]) = some (s.takeWhile (· ∉ reject)).length := by
  unfold strcspn
  rw [passWhile_append_zero rfl]
  congr 2
  induction s with
  | nil => rfl
  | cons c s ih =>
    obtain ⟨hc, hs⟩ := not_or.1 (mt List.mem_cons.2 hs)
    rw [List.takeWhile_cons, List.takeWhile_cons, ih hs, decide_eq_true (Ne.symm hc), Bool.true_and]

end

/-! ## Loops between two places -/

/-- `while (i < end && p(text[i])) i++;`, with `n` bytes in front of the end. -/
def passUpTo (p : UInt8 → Bool) (text : Bytes) : ℕ → ℕ → Option ℕ
  | 0, i => some i
  | n + 1, i => text[i]?.bind fun c => if p c then passUpTo p text n (i + 1) else some i

/-- `while (end > i && p(text[end - 1])) end--;`, with `n` bytes in front of the end. -/
def passBack (p : UInt8 → Bool) (text : Bytes) : ℕ → ℕ → Option ℕ
  | 0, stop => some stop
  | n + 1, stop => text[stop - 1]?.bind fun c => if p c then passBack p text n (stop - 1) else some stop

/-- `i < end && p(text[i])`. -/
def looksAt (p : UInt8 → Bool) (text : Bytes) (stop i : ℕ) : Option Bool :=
  if i < stop then text[i]?.map p else some false

/-- The bytes from `i` up to `stop`. -/
def window (text : Bytes) (stop i : ℕ) : Bytes := (text.take stop).drop i

section

variable {p : UInt8 → Bool} {text : Bytes} {stop i : ℕ}

theorem window_cons (hstop : stop ≤ text.length) (hi : i < stop) :
    ∃ c, text[i]? = some c ∧ window text stop i = c :: window text stop (i + 1) := by
  have hlen : i < (text.take stop).length := by
    rw [List.length_take]
    omega
  refine ⟨(text.take stop)[i], ?_, List.drop_eq_getElem_cons hlen⟩
  rw [List.getElem_take, List.getElem?_eq_getElem]

theorem window_eq_nil_iff (hstop : stop ≤ text.length) : window text stop i = [] ↔ stop ≤ i := by
  rw [window, List.drop_eq_nil_iff, List.length_take, Nat.min_eq_left hstop]

theorem window_add (k : ℕ) : window text stop (i + k) = (window text stop i).drop k :=
  (List.drop_drop ..).symm

/-- Where the loop stops the rest of the window begins. -/
theorem window_pass (p : UInt8 → Bool) :
    window text stop (i + ((window text stop i).takeWhile p).length) =
      (window text stop i).dropWhile p := by
  have hsplit := List.takeWhile_append_dropWhile (p := p) (l := window text stop i)
  rw [window_add]
  exact (congrArg _ hsplit.symm).trans List.drop_left

theorem passUpTo_eq (hstop : stop ≤ text.length) {n : ℕ} (hn : i + n = stop) :
    passUpTo p text n i = some (i + ((window text stop i).takeWhile p).length) := by
  induction n generalizing i with
  | zero =>
    rw [(window_eq_nil_iff hstop).2 (by omega)]
    rfl
  | succ n ih =>
    obtain ⟨c, hc, hwindow⟩ := window_cons (i := i) hstop (by omega)
    rw [passUpTo, hc, Option.bind_some, hwindow, List.takeWhile_cons]
    cases p c with
    | true =>
      rw [if_pos rfl, if_pos rfl, ih (by omega), List.length_cons, Nat.add_assoc, Nat.add_comm 1]
    | false => rfl

theorem looksAt_eq (hstop : stop ≤ text.length) :
    looksAt p text stop i = some ((window text stop i).head?.any p) := by
  unfold looksAt
  split
  · next hi =>
    obtain ⟨c, hc, hwindow⟩ := window_cons hstop hi
    rw [hc, hwindow]
    rfl
  · next hi =>
    rw [(window_eq_nil_iff hstop).2 (Nat.not_lt.1 hi)]
    rfl

theorem passBack_eq {n : ℕ} (hn : i + n ≤ text.length) :
    passBack p text n (i + n) = some (i + (((text.drop i).take n).rdropWhile p).length) := by
  induction n with
  | zero => rfl
  | succ n ih =>
    have hlt : i + n < text.length := by omega
    have hat : (text.drop i)[n]? = some text[i + n] := by
      rw [List.getElem?_drop, List.getElem?_eq_getElem hlt]
    rw [← Nat.add_assoc, passBack, Nat.add_sub_cancel, List.getElem?_eq_getElem hlt, Option.bind_some,
      List.take_add_one, hat, Option.toList_some, List.rdropWhile_concat]
    cases p text[i + n] with
    | true => rw [if_pos rfl, if_pos rfl, ih hlt.le]
    | false =>
      rw [if_neg Bool.false_ne_true, if_neg Bool.false_ne_true, List.length_append, List.length_take,
        List.length_drop, List.length_singleton]
      congr 1
      omega

end

end CString
