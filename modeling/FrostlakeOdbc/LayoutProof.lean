import FrostlakeOdbc.IdentProof
import FrostlakeOdbc.PackProof

/-!
# Noting goes along with joining, and does not see the layout

The scanner that finds the ends of the statements and the one that reads their words agree on where a
comment ends. So white space and closed comments between the words of a statement change neither its
words (`wordsFrom_worded`) nor where it ends (`packTexts_worded`).
-/

namespace FrostlakeOdbc

open CString Scan

/-! ## Layout -/

/-- White space and closed comments. -/
inductive Layout : Bytes → Prop where
  | nil : Layout []
  | blank {c : UInt8} {g : Bytes} (hc : isBlank c = true) (h : Layout g) : Layout (c :: g)
  | line {c close : UInt8} {body g : Bytes} (hc : c = ch '-' ∨ c = ch '/')
      (hbody : ∀ d ∈ body, d ≠ ch '\r' ∧ d ≠ ch '\n') (hclose : close = ch '\r' ∨ close = ch '\n')
      (h : Layout g) : Layout (c :: c :: (body ++ close :: g))
  | block {body g : Bytes} (hbody : find (lit "*/") (body ++ lit "*/") = some body.length)
      (h : Layout g) : Layout (ch '/' :: ch '*' :: (body ++ lit "*/" ++ g))

/-- `Worded words front`: a text is made of words, with layout before each of them, and between two
of them something that is not part of either. -/
inductive Worded : List Bytes → Bytes → Prop where
  | nil : Worded [] []
  | cons {g word front : Bytes} {words : List Bytes} (hg : Layout g)
      (hword : identIsBare word = true) (hnext : ∀ c ∈ front.head?, isNameChar c = false)
      (h : Worded words front) : Worded (word :: words) (g ++ word ++ front)

theorem isPlain_of_isBlank {c : UInt8} (h : isBlank c = true) : isPlain c = true ∧ c ≠ ch ';' := by
  revert h
  apply forall_byte (P := fun c => isBlank c = true → isPlain c = true ∧ c ≠ ch ';')
  decide +kernel

theorem flSqlSkip_line {c close : UInt8} {body : Bytes} (hc : c = ch '-' ∨ c = ch '/')
    (hbody : ∀ d ∈ body, d ≠ ch '\r' ∧ d ≠ ch '\n') (hclose : close = ch '\r' ∨ close = ch '\n')
    (s : Bytes) : flSqlSkip (c :: c :: (body ++ close :: s)) = some (body.length + 3) := by
  have hend : ∀ d ∈ (close :: s).head?, (d ≠ ch '\r' && d ≠ ch '\n') = false := by
    intro d hd
    cases hd
    rcases hclose with rfl | rfl <;> decide
  have hall : ∀ d ∈ body, (d ≠ ch '\r' && d ≠ ch '\n') = true := by
    intro d hd
    rw [decide_eq_true (hbody d hd).1, decide_eq_true (hbody d hd).2]
    rfl
  have hlength : lineCommentLength (body ++ close :: s) = body.length + 1 := by
    unfold lineCommentLength
    dsimp only
    rw [length_takeWhile_append.2 ⟨hall, hend⟩, if_pos (by simp)]
  have hopens : (c = ch '-' ∧ c = ch '-') ∨ (c = ch '/' ∧ c = ch '/') := by tauto
  have hplain : isNameStart c = false ∧ c ≠ ch '\'' ∧ c ≠ ch '"' := by
    rcases hc with rfl | rfl <;> decide
  rw [flSqlSkip_pair hplain.1 hplain.2.1 hplain.2.2, if_pos hopens, hlength]
  congr 1
  omega

theorem flSqlSkip_block {body : Bytes} (hbody : find (lit "*/") (body ++ lit "*/") = some body.length)
    (s : Bytes) : flSqlSkip (ch '/' :: ch '*' :: (body ++ lit "*/" ++ s)) = some (body.length + 4) := by
  have hlength : closedLength (lit "*/") (body ++ lit "*/" ++ s) = body.length + 2 := by
    unfold closedLength
    rw [find_append hbody]
  rw [flSqlSkip_pair (by decide) (by decide) (by decide), if_neg (by decide), if_pos ⟨rfl, rfl⟩, hlength]
  congr 1
  omega

/-- A comment that both scanners read to its end, whatever stands behind it. -/
structure IsComment (seg : Bytes) : Prop where
  two_le : 2 ≤ seg.length
  opens (s : Bytes) : opensComment (seg ++ s) = true
  skip (s : Bytes) : flSqlSkip (seg ++ s) = some seg.length

theorem isComment_line {c close : UInt8} {body : Bytes} (hc : c = ch '-' ∨ c = ch '/')
    (hbody : ∀ d ∈ body, d ≠ ch '\r' ∧ d ≠ ch '\n') (hclose : close = ch '\r' ∨ close = ch '\n') :
    IsComment (c :: c :: (body ++ [close])) where
  two_le := Nat.le_add_left 2 _
  opens s := by
    rcases hc with rfl | rfl <;> rfl
  skip s := by
    have hskip := flSqlSkip_line hc hbody hclose s
    rw [List.cons_append, List.cons_append, List.append_assoc, List.singleton_append, hskip,
      List.length_cons, List.length_cons, List.length_append, List.length_singleton]

theorem isComment_block {body : Bytes} (hbody : find (lit "*/") (body ++ lit "*/") = some body.length) :
    IsComment (ch '/' :: ch '*' :: (body ++ lit "*/")) where
  two_le := Nat.le_add_left 2 _
  opens s := rfl
  skip s := by
    have hskip := flSqlSkip_block hbody s
    have hlength : (body ++ lit "*/").length = body.length + 2 := List.length_append
    rw [List.cons_append, List.cons_append, hskip, List.length_cons, List.length_cons, hlength]

/-- Layout, segment by segment. -/
theorem Layout.segment_induction {motive : Bytes → Prop} (nil : motive [])
    (blank : ∀ c g, isBlank c = true → motive g → motive (c :: g))
    (comment : ∀ seg g, IsComment seg → motive g → motive (seg ++ g)) {g : Bytes} (hg : Layout g) :
    motive g := by
  induction hg with
  | nil => exact nil
  | blank hc _ ih => exact blank _ _ hc ih
  | @line c close body g hc hbody hclose _ ih =>
    have hcomment := comment _ g (isComment_line hc hbody hclose) ih
    rwa [List.cons_append, List.cons_append, List.append_assoc] at hcomment
  | block hbody _ ih => exact comment _ _ (isComment_block hbody) ih

/-! ## What the two scanners make of layout -/

/-- A text is cut off in segments, none of them a semicolon. -/
def Passes (a b : Bytes) : Prop :=
  ∃ l, Scans flSqlSkip (a ++ b) l b ∧ ∀ seg ∈ l, seg ≠ [ch ';']

theorem Passes.nil (b : Bytes) : Passes [] b := ⟨[], .done b, fun _ h => absurd h List.not_mem_nil⟩

theorem Passes.cons {seg a b : Bytes} (hne : seg ≠ [])
    (hwidth : width flSqlSkip (seg ++ (a ++ b)) = seg.length) (hseg : seg ≠ [ch ';'])
    (h : Passes a b) : Passes (seg ++ a) b := by
  obtain ⟨l, hscans, hl⟩ := h
  refine ⟨seg :: l, ?_, ?_⟩
  · rw [List.append_assoc]
    exact hscans.cons hne hwidth
  · intro s hs
    rcases List.mem_cons.1 hs with rfl | hs
    · exact hseg
    · exact hl s hs

theorem passes_layout {g a b : Bytes} (hg : Layout g) (h : Passes a b) : Passes (g ++ a) b := by
  refine Layout.segment_induction (motive := fun g => Passes (g ++ a) b) h ?_ ?_ hg
  · intro c g hc ih
    obtain ⟨hplain, hsemi⟩ := isPlain_of_isBlank hc
    have hwidth : width flSqlSkip ([c] ++ (g ++ a ++ b)) = [c].length :=
      width_of_none (flSqlSkip_plain hplain _)
    rw [List.cons_append, ← List.singleton_append]
    exact .cons (List.cons_ne_nil c []) hwidth (fun h => hsemi (List.cons.inj h).1) ih
  · intro seg g hseg ih
    have htwo := hseg.two_le
    rw [List.append_assoc]
    refine .cons ?_ (width_of_some (hseg.skip _)) ?_ ih
    · rintro rfl
      cases htwo
    · rintro rfl
      exact absurd htwo (by decide)

theorem wordsFrom_layout {g : Bytes} (hg : Layout g) (limit : ℕ) (s : Bytes) :
    wordsFrom limit (g ++ s) = wordsFrom limit s := by
  refine Layout.segment_induction (motive := fun g => wordsFrom limit (g ++ s) = wordsFrom limit s) rfl
    ?_ ?_ hg
  · intro c g hc ih
    exact (wordsFrom_blank hc).trans ih
  · intro seg g hseg ih
    have hopens := hseg.opens (g ++ s)
    have hskip := hseg.skip (g ++ s)
    have hdrop : (seg ++ (g ++ s)).drop seg.length = g ++ s := List.drop_left
    rw [List.append_assoc]
    cases hall : seg ++ (g ++ s) with
    | nil =>
      rw [hall] at hopens
      cases hopens
    | cons c rest =>
      rw [hall] at hopens hskip hdrop
      rw [wordsFrom_comment hopens hskip, hdrop]
      exact ih

/-! ## What they make of words -/

section

variable {words : List Bytes} {front tail : Bytes}

theorem head_append (hfront : ∀ c ∈ front.head?, isNameChar c = false)
    (htail : ∀ c ∈ tail.head?, isNameChar c = false) :
    ∀ c ∈ (front ++ tail).head?, isNameChar c = false := by
  cases front with
  | nil => exact htail
  | cons c front => exact hfront

theorem passes_worded (h : Worded words front) (htail : ∀ c ∈ tail.head?, isNameChar c = false) :
    Passes front tail := by
  induction h with
  | nil => exact .nil tail
  | @cons g word front words hg hword hnext _ ih =>
    obtain ⟨c, rest, rfl, hc, hrest⟩ := identIsBare_iff.1 hword
    rw [List.append_assoc]
    refine passes_layout hg (.cons (List.cons_ne_nil c rest) ?_ ?_ ih)
    · exact width_name hc hrest (head_append hnext htail)
    · intro h
      rw [(List.cons.inj h).1] at hc
      revert hc
      decide

theorem wordsFrom_worded (h : Worded words front) (htail : ∀ c ∈ tail.head?, isNameChar c = false)
    (limit : ℕ) :
    wordsFrom limit (front ++ tail) =
      (words.map keptWord).take limit ++ wordsFrom (limit - words.length) tail := by
  induction h generalizing limit with
  | nil => simp
  | @cons g word front words hg hword hnext _ ih =>
    have hne : word ≠ [] := by
      rintro rfl
      cases hword
    rw [List.append_assoc, List.append_assoc, wordsFrom_layout hg]
    cases limit with
    | zero => simp [wordsFrom_zero]
    | succ limit =>
      rw [wordsFrom_word hne (fun _ => isNameChar_of_identIsBare hword) (head_append hnext htail), ih,
        List.map_cons, List.take_succ_cons, List.length_cons, Nat.add_sub_add_right]
      rfl

/-- The words before it belong to the first statement of the tail. -/
theorem packTexts_worded (h : Worded words front) (htail : ∀ c ∈ tail.head?, isNameChar c = false) :
    packTexts (front ++ tail) = (packTexts tail).modifyHead (front ++ ·) := by
  obtain ⟨l, hscans, hl⟩ := passes_worded h htail
  exact pieces_of_scans (ch ';') hscans hl

end

/-- A word is kept without its case. -/
theorem map_keptWord {words words' : List Bytes}
    (h : words.map (List.map toUpper) = words'.map (List.map toUpper)) :
    words.map keptWord = words'.map keptWord := by
  have hkept : keptWord = List.take (wordLength - 1) ∘ List.map toUpper := by
    funext word
    exact List.map_take
  rw [hkept, ← List.map_map, h, List.map_map]

/-- A statement is noted by its words alone. -/
theorem noteStatement_congr {s t : Bytes} (h : wordsFrom wordLimit s = wordsFrom wordLimit t)
    (dbc : Dbc) : noteStatement dbc (whole s) = noteStatement dbc (whole t) := by
  have hwords : leadingWords (whole s) = leadingWords (whole t) := h
  unfold noteStatement
  rw [hwords]

theorem flSessionNote_relaid {words words' : List Bytes} {front front' tail : Bytes}
    (h : Worded words front) (h' : Worded words' front')
    (hwords : words.map (List.map toUpper) = words'.map (List.map toUpper))
    (htail : ∀ c ∈ tail.head?, isNameChar c = false) (dbc : Dbc) :
    flSessionNote dbc (front ++ tail) = flSessionNote dbc (front' ++ tail) := by
  obtain ⟨first, rest, hpieces, hfirst⟩ := pieces_head flSqlSkip (ch ';') tail
  have hpack : packTexts tail = first :: rest := hpieces
  have hhead : ∀ c ∈ first.head?, isNameChar c = false := by
    intro c hc
    obtain ⟨behind, rfl⟩ := hfirst
    refine htail c ?_
    rw [List.head?_append, hc]
    rfl
  have hlength := congrArg List.length hwords
  rw [List.length_map, List.length_map] at hlength
  have hsame : wordsFrom wordLimit (front ++ first) = wordsFrom wordLimit (front' ++ first) := by
    rw [wordsFrom_worded h hhead, wordsFrom_worded h' hhead, map_keptWord hwords, hlength]
  rw [flSessionNote_texts, flSessionNote_texts, packTexts_worded h htail, packTexts_worded h' htail,
    hpack]
  show rest.foldl _ (noteStatement dbc (whole (front ++ first))) =
    rest.foldl _ (noteStatement dbc (whole (front' ++ first)))
  rw [noteStatement_congr hsame]

/-! ## Every statement is words and a rest -/

theorem Layout.append {g g' : Bytes} (hg : Layout g) (hg' : Layout g') : Layout (g ++ g') := by
  induction hg with
  | nil => exact hg'
  | blank hc _ ih => exact .blank hc ih
  | @line c close body g hc hbody hclose _ ih =>
    have hsplit : c :: c :: (body ++ close :: g) ++ g' = c :: c :: (body ++ close :: (g ++ g')) := by simp
    rw [hsplit]
    exact .line hc hbody hclose ih
  | @block body g hbody _ ih =>
    have hsplit : ch '/' :: ch '*' :: (body ++ lit "*/" ++ g) ++ g' =
        ch '/' :: ch '*' :: (body ++ lit "*/" ++ (g ++ g')) := by simp
    rw [hsplit]
    exact .block hbody ih

theorem exists_line {s : Bytes} (h : s.drop (lineCommentLength s) ≠ []) :
    ∃ body close rest, s = body ++ close :: rest ∧ (∀ c ∈ body, c ≠ ch '\r' ∧ c ≠ ch '\n') ∧
      (close = ch '\r' ∨ close = ch '\n') ∧ s.drop (lineCommentLength s) = rest := by
  have hsplit := List.takeWhile_append_dropWhile (l := s) (p := fun c => c ≠ ch '\r' && c ≠ ch '\n')
  cases hrest : s.dropWhile fun c => c ≠ ch '\r' && c ≠ ch '\n' with
  | nil =>
    rw [hrest, List.append_nil] at hsplit
    unfold lineCommentLength at h
    rw [hsplit] at h
    simp at h
  | cons close rest =>
    rw [hrest] at hsplit
    have hlength : lineCommentLength s =
        (s.takeWhile fun c => c ≠ ch '\r' && c ≠ ch '\n').length + 1 := by
      have hlen := congrArg List.length hsplit
      rw [List.length_append, List.length_cons] at hlen
      unfold lineCommentLength
      dsimp only
      rw [if_pos (by omega)]
    have hclose := head_dropWhile s close (by rw [hrest]; rfl)
    simp only [Bool.and_eq_false_iff, decide_eq_false_iff_not, not_not] at hclose
    refine ⟨_, close, rest, hsplit.symm, fun c hc => ?_, hclose, ?_⟩
    · have hc := List.mem_takeWhile_imp hc
      simpa only [Bool.and_eq_true, decide_eq_true_eq] using hc
    · have hdrop := @List.drop_left _ (s.takeWhile fun c => c ≠ ch '\r' && c ≠ ch '\n')
        (close :: rest)
      rw [hsplit] at hdrop
      rw [hlength, ← List.drop_drop, hdrop]
      rfl

theorem exists_block {s : Bytes} (h : s.drop (closedLength (lit "*/") s) ≠ []) :
    ∃ body, s = body ++ lit "*/" ++ s.drop (closedLength (lit "*/") s) ∧
      find (lit "*/") (body ++ lit "*/") = some body.length := by
  unfold closedLength at h ⊢
  cases hfind : find (lit "*/") s with
  | none =>
    rw [hfind, List.drop_length] at h
    exact absurd rfl h
  | some n =>
    have hlen : n + 2 ≤ s.length := find_length hfind
    have hbody : (s.take n).length = n := List.length_take_of_le (by omega)
    obtain ⟨rest, hrest⟩ := prefix_drop_of_find hfind
    have hdrop : s.drop (n + 2) = rest := by
      rw [← List.drop_drop, ← hrest]
      rfl
    have hsplit : s = s.take n ++ lit "*/" ++ rest := by
      rw [List.append_assoc, hrest, List.take_append_drop]
    refine ⟨s.take n, ?_, ?_⟩
    · dsimp only
      rw [hdrop]
      exact hsplit
    · rw [hbody]
      rw [hsplit] at hfind
      refine find_of_append hfind ?_
      rw [List.length_append, hbody]

/-- A comment that something follows is closed. -/
theorem exists_comment {s : Bytes} (hcomment : opensComment s = true) {k : ℕ}
    (hskip : flSqlSkip s = some k) (hrest : s.drop k ≠ []) : ∃ g, Layout g ∧ s = g ++ s.drop k := by
  match s, hcomment with
  | c :: d :: s, hcomment =>
    simp only [opensComment, Bool.or_eq_true, Bool.and_eq_true, decide_eq_true_eq] at hcomment
    have hplain : isNameStart c = false ∧ c ≠ ch '\'' ∧ c ≠ ch '"' := by
      rcases hcomment with ⟨rfl, -⟩ | ⟨rfl, -⟩ <;> decide
    have hpair := flSqlSkip_pair hplain.1 hplain.2.1 hplain.2.2 d s
    by_cases hline : (c = ch '-' ∧ d = ch '-') ∨ (c = ch '/' ∧ d = ch '/')
    · rw [if_pos hline] at hpair
      obtain rfl : 2 + lineCommentLength s = k := Option.some.inj (hpair.symm.trans hskip)
      have hdrop : (c :: d :: s).drop (2 + lineCommentLength s) = s.drop (lineCommentLength s) := by
        rw [← List.drop_drop]
        rfl
      rw [hdrop] at hrest ⊢
      obtain ⟨body, close, rest, hsplit, hbody, hclose, hbehind⟩ := exists_line hrest
      have hc : c = ch '-' ∨ c = ch '/' := hline.imp And.left And.left
      obtain rfl : d = c := by
        rcases hline with ⟨rfl, rfl⟩ | ⟨rfl, rfl⟩ <;> rfl
      refine ⟨_, .line hc hbody hclose .nil, ?_⟩
      rw [hbehind, hsplit]
      simp
    · have hblock : c = ch '/' ∧ d = ch '*' := by
        rcases hcomment with h | ⟨hc, hd | hd⟩
        · exact absurd (.inl h) hline
        · exact absurd (.inr ⟨hc, hd⟩) hline
        · exact ⟨hc, hd⟩
      rw [if_neg hline, if_pos hblock] at hpair
      obtain rfl : 2 + closedLength (lit "*/") s = k := Option.some.inj (hpair.symm.trans hskip)
      have hdrop : (c :: d :: s).drop (2 + closedLength (lit "*/") s) =
          s.drop (closedLength (lit "*/") s) := by
        rw [← List.drop_drop]
        rfl
      rw [hdrop] at hrest ⊢
      obtain ⟨body, hsplit, hbody⟩ := exists_block hrest
      obtain ⟨rfl, rfl⟩ := hblock
      refine ⟨_, .block hbody .nil, ?_⟩
      conv => lhs; rw [hsplit]
      simp

/-- A text is words and a rest, and these are the words that are read of it. -/
def IsWorded (limit : ℕ) (text : Bytes) : Prop :=
  ∃ words front tail, text = front ++ tail ∧ Worded words front ∧
    (∀ c ∈ tail.head?, isNameChar c = false) ∧ wordsFrom limit text = words.map keptWord

section

variable {limit : ℕ} {c : UInt8} {rest : Bytes}

/-- A text that no word stands in front of. -/
theorem IsWorded.of_nil {text : Bytes} (hhead : ∀ c ∈ text.head?, isNameChar c = false)
    (hwords : wordsFrom limit text = []) : IsWorded limit text :=
  ⟨[], [], text, rfl, .nil, hhead, hwords⟩

theorem IsWorded.layout {g s : Bytes} (hg : Layout g) (hhead : ∀ c ∈ (g ++ s).head?, isNameChar c = false)
    (h : IsWorded limit s) : IsWorded limit (g ++ s) := by
  obtain ⟨words, front, tail, rfl, hworded, htail, hsame⟩ := h
  have hwords := (wordsFrom_layout hg limit (front ++ tail)).trans hsame
  cases hworded with
  | nil => exact .of_nil hhead hwords
  | @cons g' word front words hg' hword hnext hworded =>
    refine ⟨word :: words, g ++ g' ++ word ++ front, tail, ?_, .cons (hg.append hg') hword hnext hworded,
      htail, hwords⟩
    simp only [List.append_assoc]

theorem IsWorded.word {word s : Bytes} (hword : identIsBare word = true)
    (hhead : ∀ c ∈ s.head?, isNameChar c = false) (h : IsWorded limit s) :
    IsWorded (limit + 1) (word ++ s) := by
  obtain ⟨words, front, tail, rfl, hworded, htail, hsame⟩ := h
  have hne : word ≠ [] := by
    rintro rfl
    cases hword
  have hfront : ∀ c ∈ front.head?, isNameChar c = false := by
    intro c hc
    refine hhead c ?_
    rw [List.head?_append, hc]
    rfl
  refine ⟨word :: words, word ++ front, tail, ?_, .cons .nil hword hfront hworded, htail, ?_⟩
  · rw [List.append_assoc]
  · rw [wordsFrom_word hne (fun _ => isNameChar_of_identIsBare hword) hhead, hsame, List.map_cons]

theorem isNameChar_of_isBlank (hblank : isBlank c = true) : isNameChar c = false := by
  by_contra h
  rw [(isNameChar_facts (Bool.not_eq_false _ ▸ h)).1] at hblank
  cases hblank

/-- The name in front of a text is a word if what is kept of it begins like one. -/
theorem identIsBare_takeWhile (hname : isNameChar c = true)
    (hstart : ∀ d ∈ (keptWord ((c :: rest).takeWhile isNameChar)).head?, isNameStart d = true) :
    identIsBare ((c :: rest).takeWhile isNameChar) = true := by
  have hchars : ∀ d ∈ (c :: rest).takeWhile isNameChar, isNameChar d = true := fun d hd =>
    List.mem_takeWhile_imp hd
  rw [List.takeWhile_cons, if_pos hname] at hchars hstart ⊢
  refine identIsBare_iff.2 ⟨c, _, rfl, ?_, fun d hd => hchars d (List.mem_cons_of_mem c hd)⟩
  have hkept := hstart (toUpper c) rfl
  revert hkept
  apply forall_byte (P := fun c => isNameStart (toUpper c) = true → isNameStart c = true)
  decide +kernel

end

/-- A statement whose leading words begin with a letter or an underscore is these words and a rest. -/
theorem exists_worded : ∀ (limit : ℕ) (text : Bytes),
    (limit = 0 → ∀ c ∈ text.head?, isNameChar c = false) →
    (∀ word ∈ wordsFrom limit text, ∀ c ∈ word.head?, isNameStart c = true) → IsWorded limit text
  | 0, text, hlimit, _ => .of_nil (hlimit rfl) (wordsFrom_zero text)
  | limit + 1, [], _, _ => .of_nil (fun _ h => by cases h) rfl
  | limit + 1, c :: rest, _, hstart => by
      have hhead : isNameChar c = false → ∀ d ∈ (c :: rest).head?, isNameChar d = false := by
        intro hc d hd
        cases hd
        exact hc
      by_cases hblank : isBlank c = true
      · rw [wordsFrom_blank hblank] at hstart
        exact .layout (.blank hblank .nil) (hhead (isNameChar_of_isBlank hblank))
          (exists_worded (limit + 1) rest (by simp) hstart)
      by_cases hcomment : opensComment (c :: rest) = true
      · obtain ⟨k, hskip, hk, -⟩ := flSqlSkip_comment hcomment
        have hshort : ((c :: rest).drop k).length < (c :: rest).length := by
          rw [List.length_drop, List.length_cons]
          omega
        have hstop := hhead (opensComment_facts hcomment).1
        have hwords := @wordsFrom_comment (limit + 1) c rest hcomment k hskip
        by_cases hrest : (c :: rest).drop k = []
        · refine .of_nil hstop ?_
          rw [hwords, hrest]
          rfl
        · obtain ⟨g, hg, hsplit⟩ := exists_comment hcomment hskip hrest
          rw [hwords] at hstart
          have hbehind := exists_worded (limit + 1) ((c :: rest).drop k) (by simp) hstart
          rw [hsplit] at hstop ⊢
          exact .layout hg hstop hbehind
      rw [Bool.not_eq_true] at hblank hcomment
      by_cases hname : isNameChar c = true
      · have hnext := @head_dropWhile isNameChar (c :: rest)
        have hsplit := List.takeWhile_append_dropWhile (p := isNameChar) (l := c :: rest)
        rw [wordsFrom_name hname] at hstart
        have hshort := (List.dropWhile_suffix (l := c :: rest) isNameChar).length_le
        have hbehind := exists_worded limit ((c :: rest).dropWhile isNameChar) (fun _ => hnext)
          fun word hword => hstart word (List.mem_cons_of_mem _ hword)
        have hbare := identIsBare_takeWhile hname (hstart _ List.mem_cons_self)
        exact hsplit ▸ IsWorded.word hbare hnext hbehind
      · rw [Bool.not_eq_true] at hname
        exact .of_nil (hhead hname) (wordsFrom_other hblank hcomment hname)
  termination_by limit text => text.length + limit
  decreasing_by all_goals simp only [List.length_cons] at *; omega

/-! ## Noting a request -/

/-- A segment of the request ends where `a` does: `a` ends outside any literal, quoted identifier,
comment or body. -/
def EndsOutside (a b : Bytes) : Prop :=
  ∃ l m, segments flSqlSkip (a ++ ch ';' :: b) = l ++ m ∧ l.flatten = a

/-- Noting two texts with a semicolon between them is noting the one and then the other, and noting a
statement reads neither the case of its leading words nor the layout before them and between them. -/
theorem flSessionNote_compositional :
    (∀ dbc a b, EndsOutside a b →
      flSessionNote dbc (a ++ ch ';' :: b) = flSessionNote (flSessionNote dbc a) b) ∧
    ∀ dbc words words' front front' tail, Worded words front → Worded words' front' →
      words.map (List.map toUpper) = words'.map (List.map toUpper) →
      (∀ c ∈ tail.head?, isNameChar c = false) →
      flSessionNote dbc (front ++ tail) = flSessionNote dbc (front' ++ tail) := by
  refine ⟨fun dbc a b h => ?_, fun dbc words words' front front' tail h h' hwords htail =>
    flSessionNote_relaid h h' hwords htail dbc⟩
  obtain ⟨l, m, hsegments, hflat⟩ := h
  have hscans := scans_of_segments flSqlSkip hsegments
  have hall := hscans.flatten_append
  rw [hflat] at hall
  rw [List.append_cancel_left hall] at hscans
  exact flSessionNote_append hscans dbc

/-- `use/*;'*/schema a`, spelled anew. -/
theorem flSessionNote_compositional_pack :
    flSessionNote sessionDbc (lit "BEGIN ';'" ++ ch ';' :: lit "COMMIT") =
      flSessionNote (flSessionNote sessionDbc (lit "BEGIN ';'")) (lit "COMMIT") ∧
    flSessionNote sessionDbc (lit "use/*;'*/schema" ++ lit " a") =
      flSessionNote sessionDbc (lit "--x\nUSE  Schema" ++ lit " a") := by
  have hblock : Layout (ch '/' :: ch '*' :: (lit ";'" ++ lit "*/" ++ [])) := .block (by decide) .nil
  have hline : Layout (ch '-' :: ch '-' :: (lit "x" ++ ch '\n' :: [])) :=
    .line (.inl rfl) (forall_mem_of_all (by decide)) (.inr rfl) .nil
  have hblanks : Layout (lit "  ") := .blank rfl (.blank rfl .nil)
  have hschema : Worded [lit "schema"] (ch '/' :: ch '*' :: (lit ";'" ++ lit "*/" ++ []) ++ lit "schema" ++ []) :=
    .cons hblock (by decide) (fun c h => by cases h) .nil
  have hschema' : Worded [lit "Schema"] (lit "  " ++ lit "Schema" ++ []) :=
    .cons hblanks (by decide) (fun c h => by cases h) .nil
  have hfront : Worded [lit "use", lit "schema"]
      ([] ++ lit "use" ++ (ch '/' :: ch '*' :: (lit ";'" ++ lit "*/" ++ []) ++ lit "schema" ++ [])) :=
    .cons .nil (by decide) (by rintro c ⟨⟩; decide) hschema
  have hfront' : Worded [lit "USE", lit "Schema"]
      (ch '-' :: ch '-' :: (lit "x" ++ ch '\n' :: []) ++ lit "USE" ++ (lit "  " ++ lit "Schema" ++ [])) :=
    .cons hline (by decide) (by rintro c ⟨⟩; decide) hschema'
  exact ⟨flSessionNote_compositional.1 sessionDbc (lit "BEGIN ';'") (lit "COMMIT")
      ⟨[lit "BEGIN", lit " ", lit "';'"], [lit ";", lit "COMMIT"], by decide +kernel, by decide⟩,
    flSessionNote_compositional.2 sessionDbc _ _ _ _ (lit " a") hfront hfront' (by decide)
      (by decide +kernel)⟩

end FrostlakeOdbc
