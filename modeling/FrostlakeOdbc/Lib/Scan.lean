import Mathlib.Data.List.Basic
import Mathlib.Tactic.Common

/-!
# Segmenting a text by a scanner

A scanner says, at a position of a text, how many characters the construct that opens there takes,
or that no construct opens there. Stepping by it cuts a text into segments: a construct is one
segment, every other character is its own.

`Scans` is the judgment behind the segmentation: it keeps the characters that follow in view, so
that it composes (`Scans.append`) although a scanner looks ahead. Where a scanner is `Local`, what a
text was cut from can be exchanged behind the end of a segment (`Scans.exchange`), so that cutting a
text at the separators between its segments goes along with joining texts (`pieces_append`).
-/

namespace Scan

variable {α : Type} (skip : List α → Option ℕ)

/-- The length of the segment at the start of a text. A scanner that answers `some 0` still makes
progress by one character. -/
def width (s : List α) : ℕ :=
  match skip s with
  | some n => max 1 n
  | none => 1

theorem width_pos (s : List α) : 0 < width skip s := by
  unfold width
  split <;> omega

theorem length_drop_width_lt {s : List α} (hs : s ≠ []) :
    (s.drop (width skip s)).length < s.length := by
  have hw := width_pos skip s
  have hl := List.length_pos_iff.2 hs
  rw [List.length_drop]
  omega

/-- The segments of a text, read with at most `fuel` steps. -/
def segmentsFrom : ℕ → List α → List (List α)
  | 0, _ => []
  | _ + 1, [] => []
  | fuel + 1, c :: rest =>
      (c :: rest).take (width skip (c :: rest)) ::
        segmentsFrom fuel ((c :: rest).drop (width skip (c :: rest)))

/-- The segments of a text. -/
def segments (s : List α) : List (List α) := segmentsFrom skip s.length s

/-- `Scans skip s l t`: stepping through `s` cuts off the segments `l` and arrives at `t`. -/
inductive Scans : List α → List (List α) → List α → Prop where
  | done (s : List α) : Scans s [] s
  | step {s t : List α} {l : List (List α)} (hs : s ≠ [])
      (h : Scans (s.drop (width skip s)) l t) : Scans s (s.take (width skip s) :: l) t

namespace Scans

variable {skip} {s t u : List α} {l m : List (List α)}

theorem append (h₁ : Scans skip s l t) (h₂ : Scans skip t m u) : Scans skip s (l ++ m) u := by
  induction h₁ with
  | done s => exact h₂
  | step hs _ ih => exact .step hs (ih h₂)

theorem flatten_append (h : Scans skip s l t) : l.flatten ++ t = s := by
  induction h with
  | done s => rfl
  | step hs _ ih =>
    rw [List.flatten_cons, List.append_assoc, ih]
    exact List.take_append_drop _ _

/-- One segment `a`, seen with what follows it. -/
theorem one {a b : List α} (ha : a ≠ []) (h : width skip (a ++ b) = a.length) :
    Scans skip (a ++ b) [a] b := by
  have hs : a ++ b ≠ [] := by simp [ha]
  have := Scans.step hs (.done ((a ++ b).drop (width skip (a ++ b))))
  rwa [h, List.take_left, List.drop_left] at this

/-- A first segment, then the rest. -/
theorem cons {a b : List α} (ha : a ≠ []) (hw : width skip (a ++ b) = a.length)
    (h : Scans skip b l t) : Scans skip (a ++ b) (a :: l) t :=
  (one ha hw).append h

theorem segmentsFrom_eq (h : Scans skip s l []) :
    ∀ {fuel : ℕ}, s.length ≤ fuel → segmentsFrom skip fuel s = l := by
  generalize he : ([] : List α) = e at h
  induction h with
  | done s =>
    intro fuel _
    subst he
    cases fuel <;> rfl
  | @step s t l hs h ih =>
    intro fuel hf
    obtain ⟨c, rest, rfl⟩ := List.exists_cons_of_ne_nil hs
    have hlt := length_drop_width_lt skip hs
    obtain ⟨fuel, rfl⟩ : ∃ n, fuel = n + 1 := ⟨fuel - 1, by simp only [List.length_cons] at hf; omega⟩
    rw [segmentsFrom, ih he (by omega)]

theorem segments_eq (h : Scans skip s l []) : segments skip s = l := h.segmentsFrom_eq (Nat.le_refl _)

end Scans

theorem scans_segmentsFrom : ∀ (fuel : ℕ) (s : List α), s.length ≤ fuel →
    Scans skip s (segmentsFrom skip fuel s) []
  | fuel, [], _ => by cases fuel <;> exact .done []
  | fuel + 1, c :: rest, h => by
      have hlt := length_drop_width_lt skip (List.cons_ne_nil c rest)
      exact .step (List.cons_ne_nil c rest) (scans_segmentsFrom fuel _ (by omega))

theorem scans_segments (s : List α) : Scans skip s (segments skip s) [] :=
  scans_segmentsFrom skip _ s (Nat.le_refl _)

theorem flatten_segments (s : List α) : (segments skip s).flatten = s := by
  simpa using (scans_segments skip s).flatten_append

/-- A text is scanned to the end of any of its segments. -/
theorem scans_of_segments {s : List α} {l m : List (List α)} (h : segments skip s = l ++ m) :
    Scans skip s l m.flatten := by
  have hall := scans_segments skip s
  rw [h] at hall
  clear h
  induction l generalizing s with
  | nil =>
    have hflat := hall.flatten_append
    rw [List.append_nil, List.nil_append] at hflat
    rw [hflat]
    exact .done s
  | cons seg l ih =>
    cases hall with
    | step hs h => exact .step hs (ih h)

theorem segments_of_ne_nil {s : List α} (hs : s ≠ []) :
    segments skip s = s.take (width skip s) :: segments skip (s.drop (width skip s)) :=
  (Scans.step hs (scans_segments skip _)).segments_eq

/-! ## Exchanging what follows -/

/-- Where a segment ends depends on no more than the character behind it, and a segment ends there
also if nothing follows. -/
def Local : Prop :=
  ∀ {a : List α} {c : α} {t s : List α}, a ≠ [] → width skip (a ++ c :: t) = a.length →
    (∀ d ∈ s.head?, d = c) → width skip (a ++ s) = a.length

variable {skip}

/-- A segment inside a front of a text is a segment of the front. -/
theorem Local.width_front (hlocal : Local skip) {a b t : List α} (ha : a ≠ [])
    (h : width skip (a ++ (b ++ t)) = a.length) : width skip (a ++ b) = a.length := by
  cases b with
  | nil =>
    cases t with
    | nil => exact h
    | cons c t => exact hlocal ha h fun d hd => by cases hd
  | cons c b => exact hlocal ha h fun d hd => (Option.some.inj hd).symm

theorem Scans.exchange (hlocal : Local skip) {a s : List α} {c : α} {t : List α} {l : List (List α)}
    (h : Scans skip (a ++ c :: t) l (c :: t)) (hs : ∀ d ∈ s.head?, d = c) :
    Scans skip (a ++ s) l s := by
  have hflat : l.flatten = a := List.append_cancel_right h.flatten_append
  subst hflat
  generalize he : c :: t = e at h
  generalize l.flatten ++ e = u at h
  induction h with
  | done u => exact .done s
  | @step u e l hu h ih =>
    subst he
    have ha : u.take (width skip u) ≠ [] := by
      have hw := width_pos skip u
      have hl := List.length_pos_iff.2 hu
      exact List.ne_nil_of_length_pos (by rw [List.length_take]; omega)
    rw [List.flatten_cons, List.append_assoc]
    have hlen : (u.take (width skip u)).length = width skip u := by
      have hsplit := congrArg List.length h.flatten_append
      rw [List.length_append, List.length_cons, List.length_drop] at hsplit
      rw [List.length_take]
      omega
    have hwidth : width skip (u.take (width skip u) ++ (l.flatten ++ c :: t)) =
        (u.take (width skip u)).length := by
      rw [h.flatten_append, List.take_append_drop, hlen]
    refine .cons ha ?_ (ih rfl)
    cases hl : l.flatten with
    | nil =>
      rw [hl] at hwidth
      exact hlocal ha hwidth hs
    | cons d rest =>
      rw [hl] at hwidth
      exact hlocal ha hwidth fun x hx => (Option.some.inj hx).symm

/-- Scanning `a ++ b` arrives at `b`. -/
def Boundary (skip : List α → Option ℕ) (a b : List α) : Prop :=
  ∃ l m, segments skip (a ++ b) = l ++ m ∧ l.flatten = a

/-- At a boundary the segments are those of the front and those of the rest. -/
theorem segments_append (hlocal : Local skip) {a b : List α} (h : Boundary skip a b) :
    segments skip (a ++ b) = segments skip a ++ segments skip b := by
  obtain ⟨l, m, hsegments, rfl⟩ := h
  have hscans := scans_of_segments skip hsegments
  have hrest : m.flatten = b := by
    have hflat := flatten_segments skip (l.flatten ++ b)
    rw [hsegments, List.flatten_append] at hflat
    exact List.append_cancel_left hflat
  rw [hrest] at hscans
  have hfront : Scans skip (l.flatten ++ []) l [] := by
    cases b with
    | nil => exact hscans
    | cons c t => exact hscans.exchange hlocal (by simp)
  rw [List.append_nil] at hfront
  rw [hfront.segments_eq, (hscans.append (scans_segments skip b)).segments_eq]

/-! ## The first place where something closes -/

/-- `Through closes w len n`: `n` goes through the first of the places where something of `w`
characters closes, or to the end `len` where nothing closes. -/
inductive Through (closes : ℕ → Prop) (w len : ℕ) : ℕ → Prop where
  | closed {i : ℕ} (h : closes i) (hfirst : ∀ j < i, ¬closes j) : Through closes w len (i + w)
  | unclosed (h : ∀ i, ¬closes i) : Through closes w len len

namespace Through

variable {closes : ℕ → Prop} {w len n n' : ℕ}

theorem unique (h : Through closes w len n) (h' : Through closes w len n') : n = n' := by
  cases h with
  | @closed i hi hfirst =>
    cases h' with
    | @closed i' hi' hfirst' =>
      rcases Nat.lt_trichotomy i i' with hlt | rfl | hlt
      · exact absurd hi (hfirst' i hlt)
      · rfl
      · exact absurd hi' (hfirst i' hlt)
    | unclosed hnone => exact absurd hi (hnone i)
  | unclosed hnone =>
    cases h' with
    | closed hi' => exact absurd hi' (hnone _)
    | unclosed => rfl

theorem le (h : Through closes w len n) (hcloses : ∀ i, closes i → i + w ≤ len) : n ≤ len := by
  cases h with
  | closed hi => exact hcloses _ hi
  | unclosed => exact Nat.le_refl _

theorem congr {closes' : ℕ → Prop} (h : Through closes w len n) (hcloses : ∀ i, closes i ↔ closes' i) :
    Through closes' w len n := by
  have heq : closes = closes' := funext fun i => propext (hcloses i)
  exact heq ▸ h

/-- From where it closes to behind what closes it. -/
theorem widen (h : Through closes 0 len n) (hcloses : ∀ i, closes i → i < len) :
    Through closes w len (if n < len then n + w else n) := by
  cases h with
  | @closed i hi hfirst =>
    rw [Nat.add_zero, if_pos (hcloses i hi)]
    exact .closed hi hfirst
  | unclosed hnone =>
    rw [if_neg (Nat.lt_irrefl len)]
    exact .unclosed hnone

/-- What closes nowhere among the first `k` characters closes where it does behind them. -/
theorem shift {closes' : ℕ → Prop} {k : ℕ} (h : Through closes w len n)
    (hfront : ∀ i < k, ¬closes' i) (hbehind : ∀ i, closes' (i + k) ↔ closes i) :
    Through closes' w (len + k) (n + k) := by
  have hnot : ∀ j, closes' j → ∃ i, j = i + k ∧ closes i := by
    intro j hclose
    by_cases hjk : j < k
    · exact absurd hclose (hfront j hjk)
    · obtain ⟨i, rfl⟩ := Nat.exists_eq_add_of_le' (Nat.not_lt.1 hjk)
      exact ⟨i, rfl, (hbehind i).1 hclose⟩
  cases h with
  | @closed i hi hfirst =>
    rw [Nat.add_right_comm]
    refine .closed ((hbehind i).2 hi) fun j hj hclose => ?_
    obtain ⟨i', rfl, hclose'⟩ := hnot j hclose
    exact hfirst i' (by omega) hclose'
  | unclosed hnone =>
    refine .unclosed fun j hclose => ?_
    obtain ⟨i, rfl, hclose'⟩ := hnot j hclose
    exact hnone i hclose'

end Through

/-! ## Cutting at a separator -/

section

variable [DecidableEq α] (sep : α)

/-- What stands between the segments that are the separator. -/
def joinBetween (segs : List (List α)) : List (List α) := (segs.splitOn [sep]).map List.flatten

variable (skip) in
/-- The pieces of a text between the separators that are segments of their own. -/
def pieces (s : List α) : List (List α) := joinBetween sep (segments skip s)

theorem joinBetween_append (l m : List (List α)) :
    joinBetween sep (l ++ [sep] :: m) = joinBetween sep l ++ joinBetween sep m := by
  unfold joinBetween
  rw [List.splitOn_append_cons_self, List.map_append]

theorem joinBetween_cons_of_ne {a : List α} (ha : a ≠ [sep]) (l : List (List α)) :
    joinBetween sep (a :: l) = (joinBetween sep l).modifyHead (a ++ ·) := by
  unfold joinBetween
  rw [List.splitOn_cons_eq_if_modifyHead, if_neg (by simpa using ha)]
  cases l.splitOn [sep] with
  | nil => rfl
  | cons b m => rfl

/-- What no separator cuts goes to the first piece of the rest. -/
theorem pieces_of_scans {a b : List α} {l : List (List α)} (h : Scans skip (a ++ b) l b)
    (hl : ∀ seg ∈ l, seg ≠ [sep]) :
    pieces skip sep (a ++ b) = (pieces skip sep b).modifyHead (a ++ ·) := by
  have hflat : l.flatten = a := List.append_cancel_right h.flatten_append
  unfold pieces
  rw [(h.append (scans_segments skip b)).segments_eq, ← hflat]
  clear h hflat
  induction l with
  | nil => exact (List.modifyHead_id ▸ rfl)
  | cons seg l ih =>
    rw [List.cons_append, joinBetween_cons_of_ne sep (hl seg (List.mem_cons_self ..)),
      ih fun s hs => hl s (List.mem_cons_of_mem _ hs), List.modifyHead_modifyHead, List.flatten_cons]
    congr 1
    funext t
    exact (List.append_assoc seg l.flatten t).symm

theorem joinBetween_head (l : List (List α)) :
    ∃ first rest, joinBetween sep l = first :: rest ∧ first <+: l.flatten := by
  induction l with
  | nil => exact ⟨[], [], rfl, List.nil_prefix⟩
  | cons seg l ih =>
    by_cases hseg : seg = [sep]
    · subst hseg
      have hcut := joinBetween_append sep [] l
      exact ⟨[], joinBetween sep l, hcut, List.nil_prefix⟩
    · obtain ⟨first, rest, heq, hfirst⟩ := ih
      refine ⟨seg ++ first, rest, ?_, ?_⟩
      · rw [joinBetween_cons_of_ne sep hseg, heq]
        rfl
      · rw [List.flatten_cons]
        exact (List.prefix_append_right_inj seg).2 hfirst

theorem subset_of_mem_joinBetween {l : List (List α)} {text : List α} (h : text ∈ joinBetween sep l) :
    text ⊆ l.flatten := by
  induction l generalizing text with
  | nil =>
    rw [List.mem_singleton.1 h]
    exact List.nil_subset _
  | cons seg l ih =>
    rw [List.flatten_cons]
    by_cases hseg : seg = [sep]
    · have hcut := joinBetween_append sep [] l
      rw [List.nil_append] at hcut
      rw [hseg, hcut] at h
      rcases List.mem_cons.1 h with rfl | h
      · exact List.nil_subset _
      · exact List.Subset.trans (ih h) (List.subset_append_right _ _)
    · obtain ⟨first, rest, heq, -⟩ := joinBetween_head sep l
      rw [heq] at ih
      rw [joinBetween_cons_of_ne sep hseg, heq] at h
      rcases List.mem_cons.1 h with rfl | h
      · exact List.append_subset.2 ⟨List.subset_append_left _ _,
          List.Subset.trans (ih (List.mem_cons_self ..)) (List.subset_append_right _ _)⟩
      · exact List.Subset.trans (ih (List.mem_cons_of_mem _ h)) (List.subset_append_right _ _)

variable (skip) in
/-- A piece is made of what the text is made of. -/
theorem subset_of_mem_pieces {s text : List α} (h : text ∈ pieces skip sep s) : text ⊆ s := by
  have hsub := subset_of_mem_joinBetween sep h
  rwa [flatten_segments] at hsub

variable (skip) in
/-- The first piece is the front of the text. -/
theorem pieces_head (s : List α) : ∃ first rest, pieces skip sep s = first :: rest ∧ first <+: s := by
  have h := joinBetween_head sep (segments skip s)
  rwa [flatten_segments] at h

theorem pieces_append (hlocal : Local skip) (hsep : ∀ t, width skip (sep :: t) = 1) {a b : List α}
    {l : List (List α)} (h : Scans skip (a ++ sep :: b) l (sep :: b)) :
    pieces skip sep (a ++ sep :: b) = pieces skip sep a ++ pieces skip sep b := by
  have hfirst : Scans skip (a ++ []) l [] := h.exchange hlocal (by simp)
  rw [List.append_nil] at hfirst
  have hone : Scans skip (sep :: b) [[sep]] b :=
    .one (a := [sep]) (List.cons_ne_nil sep []) (hsep b)
  have hall := (h.append hone).append (scans_segments skip b)
  unfold pieces
  rw [hfirst.segments_eq, hall.segments_eq, List.append_assoc]
  exact joinBetween_append sep l (segments skip b)

end

end Scan
