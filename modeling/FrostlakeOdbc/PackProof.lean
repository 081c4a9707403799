import FrostlakeOdbc.NotingProof
import FrostlakeOdbc.ScannerProof

/-!
# The statements of a pack

`fl_session_note` cuts a request at its semicolons, as `fl_sql_skip` sees them (`texts_statements`),
and what it notes of a statement is settled by the text of the statement alone
(`leadingWords_eq`). So noting two requests with a semicolon between them is noting the one after the
other (`flSessionNote_append`).
-/

namespace FrostlakeOdbc

open CString Scan

/-- The text of a statement. -/
def Statement.text (s : Statement) : Bytes := s.start.take s.length

/-- A text as one statement. -/
def whole (text : Bytes) : Statement := ⟨text, text.length⟩

/-- The texts between the semicolons of a request. -/
def packTexts (sql : Bytes) : List Bytes := pieces flSqlSkip (ch ';') sql

/-! ## Where the statements are cut -/

theorem width_semicolon (t : Bytes) : width flSqlSkip (ch ';' :: t) = 1 :=
  width_of_none (flSqlSkip_plain (by decide) t)

theorem texts_statementsFrom : ∀ (fuel : ℕ) (start rest : Bytes) (n : ℕ), rest.length ≤ fuel →
    start.drop n = rest → n ≤ start.length →
      (statementsFrom fuel start n rest).map Statement.text =
        (packTexts rest).modifyHead (start.take n ++ ·)
  | fuel, start, [], n, _, _, _ => by
      have hone : statementsFrom fuel start n [] = [⟨start, n⟩] := by cases fuel <;> rfl
      rw [hone]
      show [start.take n] = [start.take n ++ []]
      rw [List.append_nil]
  | fuel + 1, start, c :: rest, n, hfuel, hdrop, hn => by
      rw [List.length_cons, Nat.add_le_add_iff_right] at hfuel
      have hlength : start.length = n + (rest.length + 1) := by
        have := congrArg List.length hdrop
        rw [List.length_drop, List.length_cons] at this
        omega
      unfold statementsFrom packTexts pieces
      cases hskip : flSqlSkip (c :: rest) with
      | some k =>
        dsimp only
        have hpos := flSqlSkip_pos hskip
        have hsplit : start.take (n + k) = start.take n ++ (c :: rest).take k := by
          rw [List.take_add, hdrop]
        rw [segments_some hskip, joinBetween_cons_of_ne _ (take_ne_of_isPlain (by decide) hskip),
          List.modifyHead_modifyHead]
        by_cases hk : k ≤ rest.length + 1
        · have hshort : ((c :: rest).drop k).length ≤ fuel := by
            rw [List.length_drop, List.length_cons]
            omega
          have hrec := texts_statementsFrom fuel start ((c :: rest).drop k) (n + k) hshort
            (by rw [← List.drop_drop, hdrop]) (by omega)
          rw [hrec, hsplit]
          unfold packTexts pieces
          congr 1
          funext t
          exact List.append_assoc _ _ t
        · have hnil : (c :: rest).drop k = [] := List.drop_eq_nil_of_le (by simpa using by omega)
          have hone : statementsFrom fuel start (n + k) [] = [⟨start, n + k⟩] := by cases fuel <;> rfl
          rw [hnil, hone]
          show [start.take (n + k)] = [start.take n ++ ((c :: rest).take k ++ [])]
          rw [List.append_nil, hsplit]
      | none =>
        dsimp only
        have hsplit : start.take (n + 1) = start.take n ++ [c] := by
          rw [List.take_add, hdrop]
          rfl
        have hnext : start.drop (n + 1) = rest := by
          rw [← List.drop_drop, hdrop]
          rfl
        rw [segments_none hskip]
        by_cases hsemi : c = ch ';'
        · rw [if_pos hsemi, hsemi]
          have hrec := texts_statementsFrom fuel rest rest 0 hfuel rfl
            (Nat.zero_le _)
          have hcut := joinBetween_append (ch ';') ([] : List Bytes) (segments flSqlSkip rest)
          rw [List.nil_append] at hcut
          rw [hcut, List.map_cons, hrec]
          show start.take n :: _ = (start.take n ++ []) :: _
          rw [List.append_nil]
          unfold packTexts pieces
          cases joinBetween (ch ';') (segments flSqlSkip rest) <;> rfl
        · have hne : [c] ≠ [ch ';'] := fun h => hsemi (List.cons.inj h).1
          rw [if_neg hsemi, joinBetween_cons_of_ne _ hne, List.modifyHead_modifyHead]
          have hrec := texts_statementsFrom fuel start rest (n + 1) hfuel
            hnext (by omega)
          rw [hrec, hsplit]
          unfold packTexts pieces
          congr 1
          funext t
          exact List.append_assoc _ _ t

/-- The statements of a request are what stands between its semicolons. -/
theorem texts_statements (sql : Bytes) : (statements sql).map Statement.text = packTexts sql := by
  rw [statements, texts_statementsFrom sql.length sql sql 0 le_rfl rfl (Nat.zero_le _)]
  cases packTexts sql <;> rfl

theorem packTexts_append {a b : Bytes} {l : List Bytes}
    (h : Scans flSqlSkip (a ++ ch ';' :: b) l (ch ';' :: b)) :
    packTexts (a ++ ch ';' :: b) = packTexts a ++ packTexts b :=
  pieces_append _ local_flSqlSkip width_semicolon h

/-- Plain characters are cut one by one. -/
theorem scans_plain {a : Bytes} (ha : ∀ c ∈ a, isPlain c = true) (t : Bytes) :
    Scans flSqlSkip (a ++ t) (a.map fun c => [c]) t := by
  induction a with
  | nil => exact .done t
  | cons c a ih =>
    obtain ⟨hc, ha'⟩ := List.forall_mem_cons.1 ha
    exact .cons (a := [c]) (List.cons_ne_nil c []) (width_of_none (flSqlSkip_plain hc _)) (ih ha')

/-- Where no semicolon of a text is a segment, the first statement takes the text, and more of what
follows if the last construct is open. -/
theorem packTexts_append_tail : ∀ (n : ℕ) {a : Bytes} (tail : Bytes), a.length ≤ n →
    (∀ seg ∈ segments flSqlSkip a, seg ≠ [ch ';']) →
      ∃ e more, packTexts (a ++ tail) = (a ++ e) :: more ∧ e ⊆ tail ∧ ∀ text ∈ more, text ⊆ tail
  | _, [], tail, _, _ => by
      obtain ⟨first, more, heq, hfirst⟩ := pieces_head flSqlSkip (ch ';') tail
      refine ⟨first, more, heq, hfirst.subset, fun text htext => ?_⟩
      exact subset_of_mem_pieces flSqlSkip (ch ';') (heq ▸ List.mem_cons_of_mem _ htext)
  | n + 1, c :: rest, tail, hn, ha => by
      have hpos := width_pos flSqlSkip (c :: rest ++ tail)
      by_cases hwidth : width flSqlSkip (c :: rest ++ tail) ≤ (c :: rest).length
      · -- the first segment is inside the text, and is the first of the text alone
        obtain ⟨seg, b, hsplit, hseg⟩ : ∃ seg b, c :: rest = seg ++ b ∧
            width flSqlSkip (c :: rest ++ tail) = seg.length :=
          ⟨_, _, (List.take_append_drop _ _).symm, (List.length_take_of_le hwidth).symm⟩
        have hlen : 0 < seg.length := by omega
        have hne : seg ≠ [] := List.ne_nil_of_length_pos hlen
        rw [hsplit] at ha hn
        rw [hsplit, List.append_assoc] at hseg ⊢
        have hself : width flSqlSkip (seg ++ b) = seg.length :=
          Local.width_front local_flSqlSkip hne hseg
        have hcut := (Scans.cons hne hself (scans_segments flSqlSkip b)).segments_eq
        rw [hcut, List.forall_mem_cons] at ha
        rw [List.length_append] at hn
        obtain ⟨e, more, heq, he, hmore⟩ :=
          packTexts_append_tail n tail (a := b) (by omega) ha.2
        refine ⟨e, more, ?_, he, hmore⟩
        have hfirst := pieces_of_scans (ch ';') (Scans.one hne hseg)
          (List.forall_mem_singleton.2 ha.1)
        unfold packTexts at heq ⊢
        rw [hfirst, heq, List.append_assoc]
        rfl
      · -- the last construct of the text is open
        cases hskip : flSqlSkip (c :: rest ++ tail) with
        | none =>
          rw [width_of_none hskip, List.length_cons] at hwidth
          omega
        | some k =>
          rw [width_of_some hskip] at hwidth
          obtain ⟨first, more, heq, hfirst⟩ :=
            pieces_head flSqlSkip (ch ';') (tail.drop (k - (c :: rest).length))
          have htake : (c :: rest ++ tail).take k =
              c :: rest ++ tail.take (k - (c :: rest).length) := by
            rw [List.take_append, List.take_of_length_le (by omega)]
          have hdrop : (c :: rest ++ tail).drop k = tail.drop (k - (c :: rest).length) := by
            rw [List.drop_append, List.drop_eq_nil_of_le (by omega), List.nil_append]
          refine ⟨tail.take (k - (c :: rest).length) ++ first, more, ?_, ?_, fun text htext => ?_⟩
          · have hne := take_ne_of_isPlain (by decide : isPlain (ch ';') = true) hskip
            unfold packTexts pieces
            rw [segments_some hskip, joinBetween_cons_of_ne _ hne, hdrop, htake]
            unfold pieces at heq
            rw [heq, ← List.append_assoc]
            rfl
          · exact List.append_subset.2
              ⟨List.take_subset _ _, List.Subset.trans hfirst.subset (List.drop_subset _ _)⟩
          · have hmem := subset_of_mem_pieces flSqlSkip (ch ';') (heq ▸ List.mem_cons_of_mem _ htext)
            exact List.Subset.trans hmem (List.drop_subset _ _)

/-! ## What a comment takes of a text that is cut off -/

theorem length_takeWhile_take (p : UInt8 → Bool) (s : Bytes) (n : ℕ) :
    ((s.take n).takeWhile p).length = min (s.takeWhile p).length n := by
  induction s generalizing n with
  | nil => simp
  | cons c s ih =>
    cases n with
    | zero => simp
    | succ n =>
      rw [List.take_succ_cons, List.takeWhile_cons, List.takeWhile_cons]
      by_cases hc : p c = true
      · rw [if_pos hc, if_pos hc, List.length_cons, List.length_cons, ih]
        omega
      · rw [if_neg hc, if_neg hc]
        simp

theorem lineCommentLength_take (s : Bytes) (n : ℕ) :
    lineCommentLength (s.take n) = min (lineCommentLength s) n := by
  have hle := (List.takeWhile_prefix (l := s) fun c => c ≠ ch '\r' && c ≠ ch '\n').length_le
  unfold lineCommentLength
  dsimp only
  rw [length_takeWhile_take, List.length_take]
  split_ifs <;> omega

theorem closedLength_take {close : Bytes} (hclose : close.length = 2) (s : Bytes) (n : ℕ) :
    closedLength close (s.take n) = min (closedLength close s) n := by
  unfold closedLength
  cases hfind : find close (s.take n) with
  | some i =>
    have hi := find_length hfind
    have hs := find_append hfind (s.drop n)
    rw [List.length_take] at hi
    rw [List.take_append_drop] at hs
    rw [hs]
    show i + 2 = min (i + 2) n
    omega
  | none =>
    cases hs : find close s with
    | none => exact (List.length_take ..).trans (Nat.min_comm _ _)
    | some i =>
      have hi := find_length hs
      -- found behind the cut
      have hcut : n < i + 2 := by
        by_contra hle
        have hsplit : find close (s.take n ++ s.drop n) = some i := by
          rw [List.take_append_drop]
          exact hs
        rw [find_of_append hsplit (by rw [List.length_take]; omega)] at hfind
        cases hfind
      show (s.take n).length = min (i + 2) n
      rw [List.length_take]
      omega

/-- A comment that is cut off goes to the end. -/
theorem flSqlSkip_comment {s : Bytes} (h : opensComment s = true) :
    ∃ k, flSqlSkip s = some k ∧ 2 ≤ k ∧ ∀ n, 2 ≤ n → flSqlSkip (s.take n) = some (min k n) := by
  match s, h with
  | c :: d :: rest, h =>
    simp only [opensComment, Bool.or_eq_true, Bool.and_eq_true, decide_eq_true_eq] at h
    have hname : isNameStart c = false ∧ c ≠ ch '\'' ∧ c ≠ ch '"' := by
      rcases h with ⟨rfl, -⟩ | ⟨rfl, -⟩ <;> decide
    obtain ⟨hname, hquote, hdouble⟩ := hname
    have hpair := flSqlSkip_pair hname hquote hdouble d
    by_cases hline : (c = ch '-' ∧ d = ch '-') ∨ (c = ch '/' ∧ d = ch '/')
    · refine ⟨_, (hpair rest).trans (if_pos hline), Nat.le_add_right 2 _, fun n hn => ?_⟩
      obtain ⟨n, rfl⟩ : ∃ m, n = m + 2 := ⟨n - 2, by omega⟩
      rw [List.take_succ_cons, List.take_succ_cons, hpair, if_pos hline, lineCommentLength_take]
      congr 1
      omega
    · have hblock : c = ch '/' ∧ d = ch '*' := by
        rcases h with h | ⟨hc, hd | hd⟩
        · exact absurd (.inl h) hline
        · exact absurd (.inr ⟨hc, hd⟩) hline
        · exact ⟨hc, hd⟩
      refine ⟨_, (hpair rest).trans ((if_neg hline).trans (if_pos hblock)), Nat.le_add_right 2 _,
        fun n hn => ?_⟩
      obtain ⟨n, rfl⟩ : ∃ m, n = m + 2 := ⟨n - 2, by omega⟩
      rw [List.take_succ_cons, List.take_succ_cons, hpair, if_neg hline, if_pos hblock,
        closedLength_take rfl]
      congr 1
      omega

/-! ## The words of a text -/

theorem leadingWordsFrom_zero (fuel limit : ℕ) (s : Bytes) : leadingWordsFrom fuel limit s 0 = [] := by
  match fuel, s with
  | 0, _ => rfl
  | _ + 1, [] => rfl
  | _ + 1, _ :: _ => exact if_pos (.inl rfl)

theorem leadingWordsFrom_nil (fuel limit n : ℕ) : leadingWordsFrom fuel limit [] n = [] := by
  cases fuel <;> rfl

theorem opensComment_facts {c : UInt8} {rest : Bytes} (hcomment : opensComment (c :: rest) = true) :
    isNameChar c = false ∧ isBlank c = false := by
  cases rest with
  | nil => cases hcomment
  | cons d rest =>
    simp only [opensComment, Bool.or_eq_true, Bool.and_eq_true, decide_eq_true_eq] at hcomment
    rcases hcomment with ⟨rfl, -⟩ | ⟨rfl, -⟩ <;> decide

/-- Two characters open a comment. -/
theorem opensComment_take (n : ℕ) : ∀ s : Bytes, opensComment (s.take (n + 2)) = opensComment s
  | [] => rfl
  | [_] => rfl
  | _ :: _ :: _ => rfl

/-- What stands behind a statement is not read. -/
theorem leadingWordsFrom_take : ∀ (fuel fuel' limit : ℕ) {s : Bytes} {n : ℕ},
    (s.take n).length ≤ fuel → (s.take n).length ≤ fuel' →
      leadingWordsFrom fuel limit s n = leadingWordsFrom fuel' limit (s.take n) (s.take n).length
  | fuel, fuel', limit, s, 0, _, _ => by
      rw [leadingWordsFrom_zero, List.take_zero, leadingWordsFrom_nil]
  | fuel, fuel', limit, [], n + 1, _, _ => by
      rw [List.take_nil, leadingWordsFrom_nil, leadingWordsFrom_nil]
  | fuel, fuel', limit, c :: rest, n + 1, hfuel, hfuel' => by
      rw [List.take_succ_cons, List.length_cons] at hfuel hfuel' ⊢
      obtain ⟨fuel, rfl⟩ : ∃ m, fuel = m + 1 := ⟨fuel - 1, by omega⟩
      obtain ⟨fuel', rfl⟩ : ∃ m, fuel' = m + 1 := ⟨fuel' - 1, by omega⟩
      rw [Nat.add_le_add_iff_right] at hfuel hfuel'
      have hbehind : ∀ limit k, 0 < k →
          leadingWordsFrom fuel limit ((c :: rest).drop k) (n + 1 - k) =
            leadingWordsFrom fuel' limit ((c :: rest.take n).drop k) ((rest.take n).length + 1 - k) := by
        intro limit k hk
        have hdrop : ((c :: rest).drop k).take (n + 1 - k) = (c :: rest.take n).drop k := by
          rw [← List.take_succ_cons, List.drop_take]
        have hlen := congrArg List.length hdrop
        rw [List.length_drop, List.length_cons] at hlen
        have hrec := leadingWordsFrom_take fuel fuel' limit (s := (c :: rest).drop k) (n := n + 1 - k)
          (by rw [hlen]; omega) (by rw [hlen]; omega)
        rw [hrec, hdrop, List.length_drop, List.length_cons]
      simp only [leadingWordsFrom, Nat.add_eq_zero_iff, Nat.one_ne_zero, and_false, false_or,
        Nat.add_sub_cancel]
      by_cases hlimit : limit = 0
      · rw [if_pos hlimit, if_pos hlimit]
      rw [if_neg hlimit, if_neg hlimit]
      by_cases hblank : isBlank c = true
      · rw [if_pos hblank, if_pos hblank]
        exact leadingWordsFrom_take fuel fuel' limit hfuel hfuel'
      rw [if_neg hblank, if_neg hblank]
      by_cases hcomment : opensComment (c :: rest) = true
      · obtain ⟨k, hskip, -, hcut⟩ := flSqlSkip_comment hcomment
        have hpos := flSqlSkip_pos hskip
        rw [if_pos hcomment, hskip]
        dsimp only
        rw [hbehind limit k hpos]
        cases n with
        | zero =>
          -- the second character of the comment is behind the statement
          rw [List.take_zero, (opensComment_facts hcomment).1]
          have hnone : ([] : Bytes).length + 1 - k = 0 := by
            rw [List.length_nil]
            omega
          rw [hnone, leadingWordsFrom_zero]
          rfl
        | succ n =>
          have hopens : opensComment (c :: rest.take (n + 1)) = true :=
            (opensComment_take n (c :: rest)).trans hcomment
          have hskip' := hcut (n + 2) (by omega)
          rw [List.take_succ_cons] at hskip'
          have hlength : (rest.take (n + 1)).length ≤ n + 1 := List.length_take_le _ _
          have hdrop : (c :: rest.take (n + 1)).drop (min k (n + 2)) =
              (c :: rest.take (n + 1)).drop k := by
            rcases Nat.le_total k (n + 2) with hk | hk
            · rw [Nat.min_eq_left hk]
            · rw [Nat.min_eq_right hk, List.drop_eq_nil_of_le, List.drop_eq_nil_of_le]
              · rw [List.length_cons]
                omega
              · rw [List.length_cons]
                omega
          have hleft : (rest.take (n + 1)).length + 1 - min k (n + 2) =
              (rest.take (n + 1)).length + 1 - k := by omega
          rw [if_pos hopens, hskip']
          dsimp only
          rw [hdrop, hleft]
      · have hopens : opensComment (c :: rest.take n) = false := by
          cases n with
          | zero => rfl
          | succ n => exact (opensComment_take n (c :: rest)).trans (Bool.eq_false_iff.2 hcomment)
        rw [if_neg hcomment, hopens, if_neg Bool.false_ne_true]
        by_cases hname : isNameChar c = true
        · have hself : (c :: rest.take n).take ((rest.take n).length + 1) = c :: rest.take n :=
            List.take_length (l := c :: rest.take n)
          have hword : 0 < ((c :: rest.take n).takeWhile isNameChar).length := by
            rw [List.takeWhile_cons, if_pos hname]
            exact Nat.succ_pos _
          rw [hname, Bool.not_true, if_neg Bool.false_ne_true, if_neg Bool.false_ne_true,
            List.take_succ_cons, hself, hbehind _ _ hword]
        · rw [Bool.not_eq_true] at hname
          rw [hname]
          rfl

/-- The words at the start of a text, `limit` of them at most. -/
def wordsFrom (limit : ℕ) (text : Bytes) : List Bytes :=
  leadingWordsFrom text.length limit text text.length

theorem leadingWordsFrom_eq {fuel limit : ℕ} {s : Bytes} {n : ℕ} (hfuel : s.length ≤ fuel)
    (hn : s.length ≤ n) : leadingWordsFrom fuel limit s n = wordsFrom limit s := by
  have htake : s.take n = s := List.take_of_length_le hn
  have h := leadingWordsFrom_take fuel s.length limit (s := s) (n := n) (by rw [htake]; exact hfuel)
    (by rw [htake])
  rw [htake] at h
  exact h

/-- The words of a statement are those of its text. -/
theorem leadingWords_eq (s : Statement) : leadingWords s = wordsFrom wordLimit s.text :=
  leadingWordsFrom_take _ _ _ (by rw [List.length_take]; exact Nat.min_le_right _ _) le_rfl

/-- A word as it is kept. -/
def keptWord (word : Bytes) : Bytes := (word.take (wordLength - 1)).map toUpper

section

variable {limit : ℕ} {c : UInt8} {rest : Bytes}

theorem wordsFrom_zero (s : Bytes) : wordsFrom 0 s = [] := by
  cases s with
  | nil => rfl
  | cons c rest =>
    unfold wordsFrom
    rw [List.length_cons, leadingWordsFrom, if_pos (Or.inr rfl)]

theorem wordsFrom_cons (limit : ℕ) (c : UInt8) (rest : Bytes) :
    wordsFrom (limit + 1) (c :: rest) =
      if isBlank c then wordsFrom (limit + 1) rest
      else if opensComment (c :: rest) then
        match flSqlSkip (c :: rest) with
        | some k => wordsFrom (limit + 1) ((c :: rest).drop k)
        | none => []
      else if !isNameChar c then []
      else
        let word := (c :: rest).takeWhile isNameChar
        keptWord word :: wordsFrom limit ((c :: rest).drop word.length) := by
  have hstart : ¬(rest.length + 1 = 0 ∨ limit + 1 = 0) := by omega
  have hall : (c :: rest).take (rest.length + 1) = c :: rest := List.take_length (l := c :: rest)
  unfold wordsFrom
  rw [List.length_cons, leadingWordsFrom, if_neg hstart, hall, Nat.add_sub_cancel, Nat.add_sub_cancel]
  congr 1
  congr 1
  · cases hskip : flSqlSkip (c :: rest) with
    | none => rfl
    | some k =>
      have hpos := flSqlSkip_pos hskip
      apply leadingWordsFrom_eq
      · rw [List.length_drop, List.length_cons]
        omega
      · rw [List.length_drop, List.length_cons]
  · by_cases hname : isNameChar c = true
    · rw [hname, Bool.not_true, if_neg Bool.false_ne_true, if_neg Bool.false_ne_true]
      have hword : 0 < ((c :: rest).takeWhile isNameChar).length := by
        rw [List.takeWhile_cons, if_pos hname]
        exact Nat.succ_pos _
      refine congrArg (keptWord _ :: ·) (leadingWordsFrom_eq ?_ ?_)
      · rw [List.length_drop, List.length_cons]
        omega
      · rw [List.length_drop, List.length_cons]
    · rw [Bool.not_eq_true] at hname
      rw [hname]
      rfl

theorem wordsFrom_blank (hblank : isBlank c = true) :
    wordsFrom limit (c :: rest) = wordsFrom limit rest := by
  cases limit with
  | zero => rw [wordsFrom_zero, wordsFrom_zero]
  | succ limit => rw [wordsFrom_cons, if_pos hblank]

theorem wordsFrom_comment (hcomment : opensComment (c :: rest) = true) {k : ℕ}
    (hskip : flSqlSkip (c :: rest) = some k) :
    wordsFrom limit (c :: rest) = wordsFrom limit ((c :: rest).drop k) := by
  have hblank := (opensComment_facts hcomment).2
  cases limit with
  | zero => rw [wordsFrom_zero, wordsFrom_zero]
  | succ limit =>
    rw [wordsFrom_cons, hblank, if_neg Bool.false_ne_true, if_pos hcomment, hskip]

theorem wordsFrom_other (hblank : isBlank c = false) (hcomment : opensComment (c :: rest) = false)
    (hname : isNameChar c = false) : wordsFrom limit (c :: rest) = [] := by
  cases limit with
  | zero => exact wordsFrom_zero _
  | succ limit =>
    rw [wordsFrom_cons, hblank, if_neg Bool.false_ne_true, hcomment, if_neg Bool.false_ne_true, hname]
    rfl

theorem isNameChar_facts {c : UInt8} (h : isNameChar c = true) :
    isBlank c = false ∧ c ≠ ch '-' ∧ c ≠ ch '/' ∧ c ≠ ch ';' := by
  revert h
  apply forall_byte (P := fun c => isNameChar c = true →
    isBlank c = false ∧ c ≠ ch '-' ∧ c ≠ ch '/' ∧ c ≠ ch ';')
  decide +kernel

theorem opensComment_eq_false (hminus : c ≠ ch '-') (hslash : c ≠ ch '/') (s : Bytes) :
    opensComment (c :: s) = false := by
  cases s with
  | nil => rfl
  | cons d s =>
    rw [opensComment, decide_eq_false hminus, decide_eq_false hslash]
    rfl

theorem wordsFrom_word {word : Bytes} (hne : word ≠ []) (hword : ∀ d ∈ word, isNameChar d = true)
    (hrest : ∀ d ∈ rest.head?, isNameChar d = false) :
    wordsFrom (limit + 1) (word ++ rest) = keptWord word :: wordsFrom limit rest := by
  obtain ⟨c, tail, rfl⟩ := List.exists_cons_of_ne_nil hne
  have hc := hword c (List.mem_cons_self ..)
  obtain ⟨hblank, hminus, hslash, -⟩ := isNameChar_facts hc
  have htake : (c :: (tail ++ rest)).takeWhile isNameChar = c :: tail :=
    (takeWhile_append_stop hword hrest).1
  have hdrop : (c :: (tail ++ rest)).drop (c :: tail).length = rest :=
    @List.drop_left _ (c :: tail) rest
  rw [List.cons_append, wordsFrom_cons, hblank, if_neg Bool.false_ne_true,
    opensComment_eq_false hminus hslash, if_neg Bool.false_ne_true, hc, Bool.not_true,
    if_neg Bool.false_ne_true, htake]
  dsimp only
  rw [hdrop]

/-- A text that begins with a character of a word begins with the word. -/
theorem wordsFrom_name (hname : isNameChar c = true) :
    wordsFrom (limit + 1) (c :: rest) = keptWord ((c :: rest).takeWhile isNameChar) ::
      wordsFrom limit ((c :: rest).dropWhile isNameChar) := by
  have hne : (c :: rest).takeWhile isNameChar ≠ [] := by
    rw [List.takeWhile_cons, if_pos hname]
    exact List.cons_ne_nil _ _
  have hwords := @wordsFrom_word limit _ _ hne (fun _ => List.mem_takeWhile_imp)
    (head_dropWhile (c :: rest))
  rwa [List.takeWhile_append_dropWhile] at hwords

end

/-! ## Noting a pack -/

theorem noteStatement_text (dbc : Dbc) (s : Statement) :
    noteStatement dbc s = noteStatement dbc (whole s.text) := by
  have hwords : leadingWords s = leadingWords (whole s.text) := leadingWords_eq s
  unfold noteStatement
  rw [hwords]

/-- A request is noted text by text. -/
theorem flSessionNote_texts (dbc : Dbc) (sql : Bytes) :
    flSessionNote dbc sql = (packTexts sql).foldl (fun d text => noteStatement d (whole text)) dbc := by
  rw [flSessionNote, ← texts_statements, List.foldl_map]
  congr 1
  funext d s
  exact noteStatement_text d s

theorem flSessionNote_append {a b : Bytes} {l : List Bytes}
    (h : Scans flSqlSkip (a ++ ch ';' :: b) l (ch ';' :: b)) (dbc : Dbc) :
    flSessionNote dbc (a ++ ch ';' :: b) = flSessionNote (flSessionNote dbc a) b := by
  rw [flSessionNote_texts, packTexts_append h, List.foldl_append, ← flSessionNote_texts,
    ← flSessionNote_texts]

end FrostlakeOdbc
