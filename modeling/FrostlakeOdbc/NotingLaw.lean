import FrostlakeOdbc.PackProof

/-!
# What noting says of the transaction

With autocommit off, the last statement of a request that begins with a word says whether a
transaction is open (`inTransaction_texts`). A statement that begins with anything else is passed
over, so the transaction it leaves open is noted only where an earlier one was
(`flSessionNote_ends_iff`).
-/

namespace FrostlakeOdbc

open CString Scan

/-! ## How a statement begins -/

/-- White space, or a comment. -/
def isLayout (seg : Bytes) : Bool := seg.head?.any isBlank || opensComment seg

/-- The segments of a statement from the first that is neither white space nor a comment. -/
def opening (text : Bytes) : List Bytes := (segments flSqlSkip text).dropWhile isLayout

/-- COMMIT or ROLLBACK. -/
def isEnd (word : Bytes) : Bool := strcaseeq word (lit "COMMIT") || strcaseeq word (lit "ROLLBACK")

/-- Whether a statement begins with COMMIT or ROLLBACK. -/
def beginsWithEnd (text : Bytes) : Bool := (opening text).head?.any isEnd

/-- Whether a statement begins with a character of a word. -/
def beginsWithWord (text : Bytes) : Bool := (opening text).head?.any fun seg => seg.head?.any isNameChar

/-- The last statement of a request that is not just white space and comments. -/
def lastStatement (sql : Bytes) : Option Bytes := ((packTexts sql).filter (opening · ≠ [])).getLast?

/-- The last statement of a request that begins with a word. -/
def lastWorded (sql : Bytes) : Option Bytes := ((packTexts sql).filter beginsWithWord).getLast?

/-- With autocommit off, whether the last statement of a request is passed over where no transaction is
known of. -/
def overlooked (dbc : Dbc) (sql : Bytes) : Bool :=
  !dbc.autocommit && (lastStatement sql).any (!beginsWithWord ·) &&
    match lastWorded sql with
    | some worded => beginsWithEnd worded
    | none => !dbc.inTransaction

theorem overlooked_congr {a b : Dbc} (hmode : a.autocommit = b.autocommit)
    (htx : a.inTransaction = b.inTransaction) (sql : Bytes) : overlooked a sql = overlooked b sql := by
  unfold overlooked
  rw [hmode, htx]

theorem segments_cons (c : UInt8) (rest : Bytes) : ∃ k, width flSqlSkip (c :: rest) = k + 1 ∧
    segments flSqlSkip (c :: rest) = (c :: rest.take k) :: segments flSqlSkip (rest.drop k) := by
  have hwidth := (Nat.sub_add_cancel (width_pos flSqlSkip (c :: rest))).symm
  refine ⟨_, hwidth, ?_⟩
  rw [segments_of_ne_nil flSqlSkip (List.cons_ne_nil c rest), hwidth]
  rfl

/-- Where a statement opens: nothing but layout, or a character that is none. -/
inductive Opens (text : Bytes) : Prop where
  | empty (hopening : opening text = []) (hwords : ∀ limit, wordsFrom limit text = [])
  | at (c : UInt8) (rest : Bytes) (hopening : opening text = segments flSqlSkip (c :: rest))
      (hwords : ∀ limit, wordsFrom limit text = wordsFrom limit (c :: rest))
      (hblank : isBlank c = false) (hcomment : opensComment (c :: rest) = false)

theorem Opens.behind {text rest seg : Bytes} (h : Opens rest)
    (hsegments : segments flSqlSkip text = seg :: segments flSqlSkip rest) (hseg : isLayout seg = true)
    (hwords : ∀ limit, wordsFrom limit text = wordsFrom limit rest) : Opens text := by
  have hopening : opening text = opening rest := by
    unfold opening
    rw [hsegments, List.dropWhile_cons, if_pos hseg]
  cases h with
  | empty hrest hnone => exact .empty (hopening.trans hrest) fun limit => (hwords limit).trans (hnone limit)
  | «at» c rest' hrest hsame hblank hcomment =>
    exact .at c rest' (hopening.trans hrest) (fun limit => (hwords limit).trans (hsame limit)) hblank
      hcomment

theorem opens : ∀ text : Bytes, Opens text
  | [] => .empty rfl fun limit => by
      show leadingWordsFrom 0 limit [] 0 = []
      rfl
  | c :: rest => by
      by_cases hblank : isBlank c = true
      · have hplain : isPlain c = true := by
          revert hblank
          apply forall_byte (P := fun c => isBlank c = true → isPlain c = true)
          decide +kernel
        refine (opens rest).behind (segments_none (flSqlSkip_plain hplain rest)) ?_ fun limit =>
          wordsFrom_blank hblank
        unfold isLayout
        rw [List.head?_cons, Option.any_some, hblank, Bool.true_or]
      rw [Bool.not_eq_true] at hblank
      by_cases hcomment : opensComment (c :: rest) = true
      · obtain ⟨k, hskip, hk, -⟩ := flSqlSkip_comment hcomment
        refine (opens ((c :: rest).drop k)).behind (segments_some hskip) ?_ fun limit =>
          wordsFrom_comment hcomment hskip
        obtain ⟨k, rfl⟩ : ∃ m, k = m + 2 := ⟨k - 2, by omega⟩
        cases rest with
        | nil => cases hcomment
        | cons d rest => exact Bool.or_eq_true_iff.2 (.inr hcomment)
      · rw [Bool.not_eq_true] at hcomment
        refine .at c rest ?_ (fun limit => rfl) hblank hcomment
        obtain ⟨k, -, hsegments⟩ := segments_cons c rest
        unfold opening
        rw [hsegments, List.dropWhile_cons, if_neg]
        unfold isLayout
        rw [List.head?_cons, Option.any_some, hblank, Bool.false_or, Bool.not_eq_true]
        match rest, k with
        | [], k => rw [List.take_nil]; rfl
        | d :: rest, 0 => rfl
        | d :: rest, k + 1 => exact hcomment
  termination_by text => text.length
  decreasing_by
    · simp
    · rw [List.length_drop, List.length_cons]
      omega

/-! ## What is read of the first word -/

/-- A statement is noted exactly if it begins with a word. -/
theorem leadingWords_ne_nil_iff (text : Bytes) :
    leadingWords (whole text) ≠ [] ↔ beginsWithWord text = true := by
  have hlength : wordLimit = 15 + 1 := rfl
  have hwhole : leadingWords (whole text) = wordsFrom (15 + 1) text := rfl
  unfold beginsWithWord
  rw [hwhole]
  cases opens text with
  | empty hopening hwords =>
    rw [hopening, hwords]
    simp
  | «at» c rest hopening hwords hblank hcomment =>
    obtain ⟨k, -, hsegments⟩ := segments_cons c rest
    rw [hopening, hwords, hsegments, List.head?_cons, Option.any_some, List.head?_cons,
      Option.any_some]
    by_cases hname : isNameChar c = true
    · rw [wordsFrom_name hname]
      simp [hname]
    · rw [Bool.not_eq_true] at hname
      rw [wordsFrom_other hblank hcomment hname, hname]
      simp

theorem isEnd_iff {word : Bytes} :
    isEnd word = true ↔ word.map toUpper = lit "COMMIT" ∨ word.map toUpper = lit "ROLLBACK" := by
  have hcommit : (lit "COMMIT").map toUpper = lit "COMMIT" := by decide
  have hrollback : (lit "ROLLBACK").map toUpper = lit "ROLLBACK" := by decide
  unfold isEnd strcaseeq
  rw [hcommit, hrollback, Bool.or_eq_true, decide_eq_true_eq, decide_eq_true_eq]

/-- A word that ends a transaction begins with a letter. -/
theorem isNameStart_of_isEnd {c : UInt8} {word : Bytes} (h : isEnd (c :: word) = true) :
    isNameStart c = true := by
  have hletter : toUpper c = ch 'C' ∨ toUpper c = ch 'R' := by
    rcases isEnd_iff.1 h with h | h
    · exact .inl (List.cons.inj h).1
    · exact .inr (List.cons.inj h).1
  revert hletter
  apply forall_byte (P := fun c => toUpper c = ch 'C' ∨ toUpper c = ch 'R' → isNameStart c = true)
  decide +kernel

/-- A word that is cut short is longer than any word it is compared with. -/
theorem keptWord_eq_iff {word text : Bytes} (htext : text.length < wordLength - 1) :
    keptWord word = text ↔ word.map toUpper = text := by
  have hcases : word.length ≤ wordLength - 1 ∨ wordLength - 1 < word.length := by omega
  unfold keptWord
  rcases hcases with hle | hlt
  · rw [List.take_of_length_le hle]
  · apply iff_of_false
    · intro h
      have hlen := congrArg List.length h
      rw [List.length_map, List.length_take] at hlen
      omega
    · intro h
      have hlen := congrArg List.length h
      rw [List.length_map] at hlen
      omega

theorem transactionEffect_ends_iff (word : Bytes) (rest : List Bytes) :
    transactionEffect (word :: rest) = .ends ↔ word = lit "COMMIT" ∨ word = lit "ROLLBACK" := by
  have hbegin : lit "BEGIN" ≠ lit "COMMIT" ∧ lit "BEGIN" ≠ lit "ROLLBACK" := by decide
  have hstart : lit "START" ≠ lit "COMMIT" ∧ lit "START" ≠ lit "ROLLBACK" := by decide
  unfold transactionEffect
  dsimp only
  by_cases h : word = lit "BEGIN"
  · rw [if_pos h, h]
    apply iff_of_false
    · cases rest with
      | nil => simp
      | cons next rest =>
        dsimp only
        split_ifs <;> decide
    · exact fun hor => hor.elim hbegin.1 hbegin.2
  rw [if_neg h]
  by_cases h : word = lit "START" ∧ rest.head? = some (lit "TRANSACTION")
  · rw [if_pos h, h.1]
    exact iff_of_false (by simp) fun hor => hor.elim hstart.1 hstart.2
  rw [if_neg h, ite_eq_left_iff, Bool.or_eq_true, decide_eq_true_eq, decide_eq_true_eq]
  tauto

theorem isEnd_keptWord (word : Bytes) (rest : List Bytes) :
    transactionEffect (keptWord word :: rest) = .ends ↔ isEnd word = true := by
  rw [transactionEffect_ends_iff, keptWord_eq_iff (by decide), keptWord_eq_iff (by decide), isEnd_iff]

/-- A statement ends a transaction, for the driver, if it begins with COMMIT or ROLLBACK. -/
theorem endsTransaction_whole (text : Bytes) : endsTransaction (whole text) = beginsWithEnd text := by
  have hwhole : leadingWords (whole text) = wordsFrom (15 + 1) text := rfl
  rw [Bool.eq_iff_iff]
  unfold endsTransaction beginsWithEnd
  rw [hwhole, decide_eq_true_eq]
  cases opens text with
  | empty hopening hwords =>
    rw [hopening, hwords]
    exact iff_of_false (by decide) (by decide)
  | «at» c rest hopening hwords hblank hcomment =>
    obtain ⟨k, hk, hsegments⟩ := segments_cons c rest
    rw [hopening, hwords, hsegments, List.head?_cons, Option.any_some]
    by_cases hstart : isNameStart c = true
    · -- the segment is the word
      have hword : c :: rest.take k = (c :: rest).takeWhile isNameChar := by
        rw [width_of_some (flSqlSkip_name rest hstart), Nat.add_comm, Nat.add_right_cancel_iff] at hk
        rw [List.takeWhile_cons, if_pos (isNameChar_of_isNameStart hstart), ← hk]
        exact congrArg (c :: ·) (List.prefix_iff_eq_take.1 (List.takeWhile_prefix _)).symm
      rw [wordsFrom_name (isNameChar_of_isNameStart hstart), hword]
      exact isEnd_keptWord _ _
    · refine iff_of_false ?_ fun h => hstart (isNameStart_of_isEnd h)
      by_cases hname : isNameChar c = true
      · rw [wordsFrom_name hname, isEnd_keptWord, List.takeWhile_cons, hname]
        exact fun h => hstart (isNameStart_of_isEnd h)
      · rw [Bool.not_eq_true] at hname
        rw [wordsFrom_other hblank hcomment hname]
        decide

theorem beginsWithWord_of_end {text : Bytes} (h : beginsWithEnd text = true) :
    beginsWithWord text = true := by
  unfold beginsWithEnd at h
  unfold beginsWithWord
  cases hopening : opening text with
  | nil =>
    rw [hopening] at h
    cases h
  | cons seg segs =>
    rw [hopening, List.head?_cons, Option.any_some] at h
    rw [List.head?_cons, Option.any_some]
    cases seg with
    | nil => cases h
    | cons c seg => exact isNameChar_of_isNameStart (isNameStart_of_isEnd h)

theorem opening_ne_nil_of_word {text : Bytes} (h : beginsWithWord text = true) : opening text ≠ [] := by
  intro hnil
  unfold beginsWithWord at h
  rw [hnil] at h
  cases h

/-! ## What is known after a request -/

/-- The last statement that begins with a word says whether a transaction is open. -/
theorem inTransaction_texts {dbc : Dbc} (hoff : dbc.autocommit = false) (sql : Bytes) :
    (flSessionNote dbc sql).inTransaction =
      match lastWorded sql with
      | some text => !beginsWithEnd text
      | none => dbc.inTransaction := by
  have htext : ∀ before s, noteTransaction dbc.autocommit before s =
      noteTransaction dbc.autocommit before (whole s.text) := by
    intro before s
    have hwords : leadingWords s = leadingWords (whole s.text) := leadingWords_eq s
    unfold noteTransaction
    rw [hwords]
  have hfold : (statements sql).foldl (noteTransaction dbc.autocommit) dbc.inTransaction =
      ((packTexts sql).map whole).foldl (noteTransaction dbc.autocommit) dbc.inTransaction := by
    rw [← texts_statements, List.foldl_map, List.foldl_map]
    congr 1
    funext before s
    exact htext before s
  have hsettles : settles dbc.autocommit ∘ whole = beginsWithWord := by
    funext text
    rw [Bool.eq_iff_iff, ← leadingWords_ne_nil_iff, hoff]
    simp [settles]
  rw [inTransaction_flSessionNote, hfold, foldl_noteTransaction, List.filter_map, hsettles,
    List.getLast?_map]
  unfold lastWorded
  cases ((packTexts sql).filter beginsWithWord).getLast? with
  | none => rfl
  | some text => exact congrArg (!·) (endsTransaction_whole text)

theorem lastWorded_of_lastStatement {sql text : Bytes} (h : lastStatement sql = some text)
    (hword : beginsWithWord text = true) : lastWorded sql = some text := by
  obtain ⟨front, hfront⟩ := List.getLast?_eq_some_iff.1 h
  have hfilter : (packTexts sql).filter beginsWithWord =
      ((packTexts sql).filter (opening · ≠ [])).filter beginsWithWord := by
    rw [List.filter_filter]
    refine List.filter_congr fun t _ => ?_
    rw [Bool.eq_iff_iff, Bool.and_eq_true, decide_eq_true_eq]
    exact ⟨fun h => ⟨h, opening_ne_nil_of_word h⟩, fun h => h.1⟩
  unfold lastWorded
  rw [hfilter, hfront, List.filter_append, List.filter_singleton, hword]
  exact List.getLast?_concat

theorem lastWorded_of_none {sql : Bytes} (h : lastStatement sql = none) : lastWorded sql = none := by
  unfold lastStatement at h
  unfold lastWorded
  rw [List.getLast?_eq_none_iff, List.filter_eq_nil_iff] at h ⊢
  intro t ht hword
  exact h t ht (decide_eq_true (opening_ne_nil_of_word hword))

/-- With autocommit off, `in_transaction` is 0 after a request only where its last statement begins
with COMMIT or ROLLBACK, or it holds none and no transaction was open: exactly where the last
statement begins with a word, or what is known of the ones before it leaves a transaction open. -/
theorem flSessionNote_ends_iff (dbc : Dbc) (sql : Bytes) (hoff : dbc.autocommit = false) :
    ((flSessionNote dbc sql).inTransaction = false →
      (∃ text, lastStatement sql = some text ∧ beginsWithEnd text = true) ∨
        (lastStatement sql = none ∧ dbc.inTransaction = false)) ↔
    ∀ text, lastStatement sql = some text → beginsWithWord text = true ∨
      match lastWorded sql with
      | some worded => beginsWithEnd worded = false
      | none => dbc.inTransaction = true := by
  rw [inTransaction_texts hoff]
  cases hlast : lastStatement sql with
  | none =>
    rw [lastWorded_of_none hlast]
    simp
  | some text =>
    by_cases hword : beginsWithWord text = true
    · rw [lastWorded_of_lastStatement hlast hword]
      simp [hword]
    · have hend : ¬beginsWithEnd text = true := fun h => hword (beginsWithWord_of_end h)
      cases lastWorded sql <;> simp [hword, hend]

theorem flSessionNote_ends_commit :
    ({ sessionDbc with autocommit := false } : Dbc).autocommit = false ∧
    (((flSessionNote { sessionDbc with autocommit := false } (lit "SELECT 1; COMMIT")).inTransaction =
        false →
      (∃ text, lastStatement (lit "SELECT 1; COMMIT") = some text ∧ beginsWithEnd text = true) ∨
        (lastStatement (lit "SELECT 1; COMMIT") = none ∧ sessionDbc.inTransaction = false)) ↔
    ∀ text, lastStatement (lit "SELECT 1; COMMIT") = some text → beginsWithWord text = true ∨
      match lastWorded (lit "SELECT 1; COMMIT") with
      | some worded => beginsWithEnd worded = false
      | none => sessionDbc.inTransaction = true) :=
  ⟨rfl, flSessionNote_ends_iff { sessionDbc with autocommit := false } (lit "SELECT 1; COMMIT") rfl⟩

/-- A query in parentheses opens a transaction that is not noted. -/
theorem flSessionNote_misses_query :
    ¬((flSessionNote { sessionDbc with autocommit := false } (lit "(SELECT 1)")).inTransaction = false →
      (∃ text, lastStatement (lit "(SELECT 1)") = some text ∧ beginsWithEnd text = true) ∨
        (lastStatement (lit "(SELECT 1)") = none ∧ sessionDbc.inTransaction = false)) := by
  have hlast : lastStatement (lit "(SELECT 1)") = some (lit "(SELECT 1)") := by decide +kernel
  have hend : beginsWithEnd (lit "(SELECT 1)") = false := by decide +kernel
  intro h
  rcases h (by decide +kernel) with ⟨text, htext, hends⟩ | ⟨hnone, -⟩
  · rw [hlast] at htext
    cases htext
    rw [hend] at hends
    cases hends
  · rw [hlast] at hnone
    cases hnone

end FrostlakeOdbc
