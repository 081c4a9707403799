import FrostlakeOdbc.Execute
import FrostlakeOdbc.Session
import FrostlakeOdbc.ScannerSpec
import FrostlakeOdbc.Lib.Block

/-!
# The scanner on a block of memory

`skip_non_placeholder` and the loops that step by it, byte for byte as they read the block that holds a
text and its NUL: `none` is a read past the NUL, or a loop that is still running when its fuel is used
up. None of that happens, and what they come to is what they come to on the text
(`skipNonPlaceholder_append_zero`, `scanLoop_append_zero`).
-/

namespace FrostlakeOdbc

open CString Exchange Scan

/-! ## One construct -/

/-- The loop over a single-quoted string. -/
def passString : Bytes → Option ℕ
  | [] => none
  -- the NUL, or a character whose successor is not in the block
  | [c] => if c = 0 then some 0 else none
  | c :: d :: rest =>
      if c = 0 then some 0
      else if c = ch '\\' ∧ d ≠ 0 then (passString rest).map (2 + ·)
      else if c = ch '\'' then if d ≠ ch '\'' then some 1 else (passString rest).map (2 + ·)
      else (passString (d :: rest)).map (1 + ·)

/-- The loop over a quoted identifier. -/
def passQuoted : Bytes → Option ℕ
  | [] => none
  | [c] => if c = 0 then some 0 else none
  | c :: d :: rest =>
      if c = 0 then some 0
      else if c = ch '"' then if d ≠ ch '"' then some 1 else (passQuoted rest).map (2 + ·)
      else (passQuoted (d :: rest)).map (1 + ·)

/-- Whether `first` and `second` stand at a pointer. The second is looked at only behind the first. -/
def startsPair (first second : UInt8) (block : Bytes) : Option Bool := do
  if (← block[0]?) = first then return (← block[1]?) = second else return false

/-- The end of a line comment. -/
def passLineComment (block : Bytes) : Option ℕ := do
  let p := 2 + (← strcspn (lit "\r\n") (block.drop 2))
  return if (← block[p]?) ≠ 0 then p + 1 else p

/-- The end of a comment or body that `close` closes. -/
def passClosed (close block : Bytes) : Option ℕ := do
  match ← strstr close (block.drop 2) with
  | some n => return 2 + n + 2
  | none => strlen block

/-- `skip_non_placeholder`, on the block from the pointer on. -/
def skipNonPlaceholder (block : Bytes) : Option (Option ℕ) := do
  let first ← block[0]?
  if isNameStart first then return some (1 + (← passWhile isNameChar (block.drop 1)))
  if first = ch '\'' then return some (1 + (← passString (block.drop 1)))
  if first = ch '"' then return some (1 + (← passQuoted (block.drop 1)))
  if (← startsPair (ch '-') (ch '-') block) || (← startsPair (ch '/') (ch '/') block) then
    return some (← passLineComment block)
  if ← startsPair (ch '/') (ch '*') block then return some (← passClosed (lit "*/") block)
  if ← startsPair (ch '$') (ch '$') block then return some (← passClosed (lit "$$") block)
  return none

section

variable {s : Bytes}

theorem passString_append_zero : ∀ {s : Bytes}, 0 ∉ s → passString (s ++ [0]) = some (stringLength s)
  | [], _ => rfl
  | [c], hs => by
      have hc : c ≠ 0 := by simpa [eq_comm] using hs
      rw [List.singleton_append, passString, if_neg hc, if_neg fun h => h.2 rfl]
      split
      · rfl
      · rfl
  | c :: d :: rest, hs => by
      simp only [List.mem_cons, not_or] at hs
      obtain ⟨hc, hd, hrest⟩ := hs
      have hnext : 0 ∉ d :: rest := by simp [hd, hrest]
      rw [List.cons_append, List.cons_append, passString, stringLength, if_neg (Ne.symm hc),
        passString_append_zero hrest, ← List.cons_append, passString_append_zero hnext]
      simp only [Ne.symm hd, ne_eq, not_false_eq_true, and_true, Option.map_some]
      split_ifs <;> rfl

theorem passQuoted_append_zero : ∀ {s : Bytes}, 0 ∉ s → passQuoted (s ++ [0]) = some (quotedLength s)
  | [], _ => rfl
  | [c], hs => by
      have hc : c ≠ 0 := by simpa [eq_comm] using hs
      rw [List.singleton_append, passQuoted, if_neg hc]
      split
      · rfl
      · rfl
  | c :: d :: rest, hs => by
      simp only [List.mem_cons, not_or] at hs
      obtain ⟨hc, hd, hrest⟩ := hs
      have hnext : 0 ∉ d :: rest := by simp [hd, hrest]
      rw [List.cons_append, List.cons_append, passQuoted, quotedLength, if_neg (Ne.symm hc),
        passQuoted_append_zero hrest, ← List.cons_append, passQuoted_append_zero hnext]
      simp only [Option.map_some]
      split_ifs <;> rfl

theorem startsPair_append_zero {first second : UInt8} (hsecond : second ≠ 0) (c : UInt8) (rest : Bytes) :
    startsPair first second (c :: (rest ++ [0])) =
      some (decide (c = first ∧ rest.head? = some second)) := by
  unfold startsPair
  by_cases hc : c = first
  · cases rest with
    | nil => simp [hc, hsecond.symm]
    | cons d rest => simp [hc]
  · simp [hc]

theorem passLineComment_append_zero (hs : 0 ∉ s) (c d : UInt8) :
    passLineComment (c :: d :: (s ++ [0])) = some (2 + lineCommentLength s) := by
  have hline : (fun c => decide (c ∉ lit "\r\n")) =
      fun c => decide (c ≠ ch '\r') && decide (c ≠ ch '\n') := by
    funext c
    rw [show lit "\r\n" = [ch '\r', ch '\n'] from rfl]
    simp only [List.mem_cons, List.not_mem_nil, or_false, not_or, Bool.decide_and]
  unfold passLineComment lineCommentLength
  rw [List.drop_succ_cons, List.drop_succ_cons, List.drop_zero, strcspn_append_zero hs, hline]
  generalize hbody : s.takeWhile (fun c => decide (c ≠ ch '\r') && decide (c ≠ ch '\n')) = body
  have hprefix : body <+: s := hbody ▸ List.takeWhile_prefix _
  simp only [Option.bind_eq_bind, Option.bind_some]
  rw [Nat.add_comm 2, List.getElem?_cons_succ, List.getElem?_cons_succ]
  by_cases hlt : body.length < s.length
  · have hne : s[body.length] ≠ 0 := fun h => hs (h ▸ List.getElem_mem hlt)
    rw [if_pos hlt, List.getElem?_append_left hlt, List.getElem?_eq_getElem hlt, Option.bind_some,
      if_pos hne]
    congr 1
    omega
  · have heq : body.length = s.length := Nat.le_antisymm hprefix.length_le (Nat.not_lt.1 hlt)
    rw [if_neg hlt, heq, List.getElem?_append_right le_rfl, Nat.sub_self, Nat.add_comm 2]
    rfl

theorem passClosed_append_zero (close : Bytes) {c d : UInt8} (hs : 0 ∉ c :: d :: s) :
    passClosed close (c :: d :: (s ++ [0])) = some (2 + closedLength close s) := by
  have hlen := strlen_append_zero hs
  have hrest : 0 ∉ s := fun h => hs (List.mem_cons_of_mem _ (List.mem_cons_of_mem _ h))
  rw [List.cons_append, List.cons_append] at hlen
  unfold passClosed closedLength
  rw [List.drop_succ_cons, List.drop_succ_cons, List.drop_zero, strstr_append_zero hrest]
  cases find close s with
  | none =>
    rw [Option.bind_eq_bind, Option.bind_some]
    dsimp only
    rw [hlen, List.length_cons, List.length_cons, Nat.add_comm 2]
  | some n => rfl

/-- On the block of a text the scanner reads nothing behind the NUL, and goes as far as on the text. -/
theorem skipNonPlaceholder_append_zero (hs : 0 ∉ s) :
    skipNonPlaceholder (s ++ [0]) = some (flSqlSkip s) := by
  cases s with
  | nil => rfl
  | cons c rest =>
    have hrest : 0 ∉ rest := fun h => hs (List.mem_cons_of_mem _ h)
    unfold skipNonPlaceholder flSqlSkip
    rw [List.cons_append]
    simp (disch := decide) only [List.getElem?_cons_zero, List.drop_succ_cons, List.drop_zero,
      Option.bind_eq_bind, Option.bind_some, @passWhile_append_zero isNameChar rfl,
      passString_append_zero hrest, passQuoted_append_zero hrest, startsPair_append_zero]
    by_cases hname : isNameStart c = true
    · rw [if_pos hname, if_pos hname]
      rfl
    by_cases hstring : c = ch '\''
    · rw [if_neg hname, if_pos hstring, if_neg hname, if_pos hstring]
      rfl
    by_cases hquoted : c = ch '"'
    · rw [if_neg hname, if_neg hstring, if_pos hquoted, if_neg hname, if_neg hstring, if_pos hquoted]
      rfl
    rw [if_neg hname, if_neg hstring, if_neg hquoted, if_neg hname, if_neg hstring, if_neg hquoted]
    simp only [Bool.or_eq_true, decide_eq_true_eq]
    cases rest with
    | nil => simp
    | cons d rest =>
      have hbody : 0 ∉ rest := fun h => hrest (List.mem_cons_of_mem _ h)
      rw [List.cons_append, List.drop_succ_cons, List.drop_zero, passLineComment_append_zero hbody,
        passClosed_append_zero _ hs, passClosed_append_zero _ hs]
      split_ifs <;> rfl

end

/-! ## The loops -/

section

variable {σ ρ ε : Type} (construct : σ → Bytes → σ) (character : σ → Bytes → UInt8 → Except ε σ)
  (finish : σ → ρ)

/-- A loop that steps by `skip_non_placeholder`: what it does with the bytes of a construct, with any
other character, at which it may stop, and at the NUL. -/
def scanLoop : ℕ → σ → Bytes → Option (Except ε ρ)
  | 0, _, _ => none
  | fuel + 1, st, block => do
      let first ← block[0]?
      if first = 0 then return .ok (finish st)
      match ← skipNonPlaceholder block with
      | some n => scanLoop fuel (construct st (block.take n)) (block.drop n)
      | none =>
          match character st (block.drop 1) first with
          | .ok st => scanLoop fuel st (block.drop 1)
          | .error e => return .error e

variable {construct character finish}

/-- The loop ends on the block of every text, and comes to what satisfies its equations on the text. -/
theorem scanLoop_append_zero {spec : ℕ → σ → Bytes → Except ε ρ}
    (hnil : ∀ fuel st, spec fuel st [] = .ok (finish st))
    (hsome : ∀ {fuel st s n}, flSqlSkip s = some n →
      spec (fuel + 1) st s = spec fuel (construct st (s.take n)) (s.drop n))
    (hnone : ∀ {fuel st c rest}, 0 ∉ rest → flSqlSkip (c :: rest) = none →
      spec (fuel + 1) st (c :: rest) =
        (character st (rest ++ [0]) c).bind fun st => spec fuel st rest)
    {fuel : ℕ} {s : Bytes} (hs : 0 ∉ s) (hfuel : s.length ≤ fuel) (st : σ) :
    scanLoop construct character finish (fuel + 1) st (s ++ [0]) = some (spec fuel st s) := by
  induction fuel generalizing s st with
  | zero =>
    obtain rfl : s = [] := List.eq_nil_of_length_eq_zero (Nat.le_zero.1 hfuel)
    rw [hnil]
    rfl
  | succ fuel ih =>
    cases s with
    | nil =>
      rw [hnil]
      rfl
    | cons c rest =>
      have hc : c ≠ 0 := fun h => hs (h ▸ List.mem_cons_self)
      have hrest : 0 ∉ rest := fun h => hs (List.mem_cons_of_mem _ h)
      rw [scanLoop, skipNonPlaceholder_append_zero hs]
      simp only [List.cons_append, List.getElem?_cons_zero, Option.bind_eq_bind, Option.bind_some,
        if_neg hc]
      cases hskip : flSqlSkip (c :: rest) with
      | some n =>
        have hn := flSqlSkip_le hskip
        have hpos := flSqlSkip_pos hskip
        have hdrop : 0 ∉ (c :: rest).drop n := fun h => hs (List.mem_of_mem_drop h)
        dsimp only
        rw [← List.cons_append, List.take_append_of_le_length hn, List.drop_append_of_le_length hn,
          hsome hskip]
        refine ih hdrop ?_ _
        rw [List.length_drop]
        omega
      | none =>
        dsimp only
        rw [hnone hrest hskip, List.drop_succ_cons, List.drop_zero]
        cases character st (rest ++ [0]) c with
        | error e => rfl
        | ok st => exact ih hrest (Nat.le_of_succ_le_succ hfuel) st

end

/-- The loop of `count_placeholders`. -/
def countPlaceholdersLoop (fuel : ℕ) (sql : Bytes) : Option (Except Empty ℕ) :=
  scanLoop (fun count _ => count) (fun count _ c => .ok (if c = ch '?' then count + 1 else count)) id
    fuel 0 sql

/-- The loop of `substitute_params`, with the parameters that are left and the buffer. -/
def substituteParamsLoop (params : List BoundParam) (fuel : ℕ) (sql : Bytes) :
    Option (Except Diag Bytes) :=
  scanLoop (fun st segment => (st.1, st.2 ++ segment))
    (fun st _ c =>
      if c = ch '?' then
        match st.1 with
        | [] => .error (flDiagSet "07002" (lit "More placeholders than bound parameters"))
        | param :: params => (appendParamLiteral param).map fun literal => (params, st.2 ++ literal)
      else .ok (st.1, st.2 ++ [c]))
    Prod.snd fuel (params, []) sql

/-- What `fl_session_note` keeps: the connection, the start of a statement, and the number of its bytes
in front of the pointer. -/
structure NoteState where
  dbc : Dbc
  start : Bytes
  length : ℕ

/-- The statement from its start to the pointer is noted. -/
def NoteState.note (st : NoteState) : Dbc := noteStatement st.dbc ⟨cstr st.start, st.length⟩

/-- The loop of `fl_session_note`. -/
def flSessionNoteLoop (dbc : Dbc) (fuel : ℕ) (sql : Bytes) : Option (Except Empty Dbc) :=
  scanLoop (fun st segment => { st with length := st.length + segment.length })
    (fun st behind c =>
      .ok (if c = ch ';' then ⟨st.note, behind, 0⟩ else { st with length := st.length + 1 }))
    NoteState.note fuel ⟨dbc, sql, 0⟩ sql

/-- What any of them steps over, one piece after the other. -/
def segmentsLoop (fuel : ℕ) (sql : Bytes) : Option (Except Empty (List Bytes)) :=
  scanLoop (fun segs segment => segs ++ [segment]) (fun segs _ c => .ok (segs ++ [[c]])) id fuel [] sql

section

variable {s : Bytes}

/-! Each loop ends within one step for each byte and one for the NUL. -/

theorem countPlaceholdersLoop_append_zero (hs : 0 ∉ s) :
    countPlaceholdersLoop (s.length + 1) (s ++ [0]) = some (.ok (countPlaceholders s)) := by
  have hloop : countPlaceholdersLoop (s.length + 1) (s ++ [0]) =
      some (.ok (0 + countPlaceholdersFrom s.length s)) := by
    unfold countPlaceholdersLoop
    apply @scanLoop_append_zero _ _ _ _ _ _
      fun fuel count s => .ok (count + countPlaceholdersFrom fuel s)
    · intro fuel count
      cases fuel <;> rfl
    · intro fuel count s n hskip
      cases s with
      | nil => cases hskip
      | cons c rest => rw [countPlaceholdersFrom, hskip]
    · intro fuel count c rest _ hskip
      rw [countPlaceholdersFrom, hskip]
      simp only [Except.bind]
      split
      · rw [Nat.add_assoc]
      · rw [Nat.zero_add]
    · exact hs
    · exact le_rfl
  rwa [Nat.zero_add] at hloop

theorem segmentsLoop_append_zero (hs : 0 ∉ s) :
    segmentsLoop (s.length + 1) (s ++ [0]) = some (.ok (segments flSqlSkip s)) := by
  unfold segmentsLoop
  apply @scanLoop_append_zero _ _ _ _ _ _ fun fuel segs s => .ok (segs ++ segmentsFrom flSqlSkip fuel s)
  · intro fuel segs
    cases fuel <;> simp [segmentsFrom]
  · intro fuel segs s n hskip
    cases s with
    | nil => cases hskip
    | cons c rest =>
      rw [segmentsFrom, width_of_some hskip, List.append_assoc]
      rfl
  · intro fuel segs c rest _ hskip
    rw [segmentsFrom, width_of_none hskip]
    simp only [Except.bind, List.append_assoc]
    rfl
  · exact hs
  · exact le_rfl

theorem substituteParamsLoop_append_zero (params : List BoundParam) (hs : 0 ∉ s) :
    substituteParamsLoop params (s.length + 1) (s ++ [0]) = some (substituteParams params s) := by
  have hmap : ∀ (front back : Bytes) (r : Except Diag Bytes),
      (r.map (back ++ ·)).map (front ++ ·) = r.map (front ++ back ++ ·) := by
    intro front back r
    cases r with
    | error e => rfl
    | ok text => exact congrArg Except.ok (List.append_assoc front back text).symm
  have hloop : substituteParamsLoop params (s.length + 1) (s ++ [0]) =
      some ((substituteParams params s).map ([] ++ ·)) := by
    unfold substituteParamsLoop
    -- the buffer stands in front of what is still to be written
    apply @scanLoop_append_zero _ _ _ _ _ _ fun fuel (st : List BoundParam × Bytes) s =>
      (substituteParamsFrom fuel st.1 s).map (st.2 ++ ·)
    · intro fuel st
      cases fuel <;> simp [substituteParamsFrom, Except.map]
    · intro fuel st s n hskip
      cases s with
      | nil => cases hskip
      | cons c rest =>
        simp only [substituteParamsFrom, hskip]
        exact hmap _ _ _
    · intro fuel st c rest _ hskip
      simp only [substituteParamsFrom, hskip]
      split
      · cases st.1 with
        | nil => rfl
        | cons param params =>
          dsimp only
          cases appendParamLiteral param with
          | error e => rfl
          | ok literal => exact hmap _ _ _
      · exact hmap _ [c] _
    · exact hs
    · exact le_rfl
  rw [hloop]
  cases substituteParams params s <;> rfl

theorem flSessionNoteLoop_append_zero (dbc : Dbc) (hs : 0 ∉ s) :
    flSessionNoteLoop dbc (s.length + 1) (s ++ [0]) = some (.ok (flSessionNote dbc s)) := by
  have hloop : flSessionNoteLoop dbc (s.length + 1) (s ++ [0]) =
      some (.ok ((statementsFrom s.length (cstr (s ++ [0])) 0 s).foldl noteStatement dbc)) := by
    unfold flSessionNoteLoop
    apply @scanLoop_append_zero _ _ _ _ _ _ fun fuel (st : NoteState) s =>
      .ok ((statementsFrom fuel (cstr st.start) st.length s).foldl noteStatement st.dbc)
    · intro fuel st
      cases fuel <;> rfl
    · intro fuel st s n hskip
      have hn := flSqlSkip_le hskip
      cases s with
      | nil => cases hskip
      | cons c rest => rw [statementsFrom, hskip, List.length_take, Nat.min_eq_left hn]
    · intro fuel st c rest hrest hskip
      rw [statementsFrom, hskip]
      dsimp only
      split
      · simp only [Except.bind, cstr_append_zero hrest]
        rfl
      · rfl
    · exact hs
    · exact le_rfl
  rwa [cstr_append_zero hs] at hloop

end

/-! ## The law -/

/-- What the scanner and the loops that step by it keep to on the block of a text and its NUL. -/
structure ScannerLaw (text : Bytes) : Prop where
  /-- The scanner reads nothing behind the NUL, and goes forward to the NUL at most. -/
  bounded : ∀ c < text.length, ∃ past, skipNonPlaceholder ((text ++ [0]).drop c) = some past ∧
    ∀ n ∈ past, 0 < n ∧ c + n ≤ text.length
  /-- It goes forward where a construct opens. -/
  opens : ∀ c < text.length, (∃ n, skipNonPlaceholder ((text ++ [0]).drop c) = some (some n)) ↔
    ∃ construct : Construct, construct.Opens (text.drop c)
  /-- It goes to the end of the construct. -/
  ends : ∀ c < text.length, ∀ n, skipNonPlaceholder ((text ++ [0]).drop c) = some (some n) ↔
    ∃ construct : Construct, construct.Opens (text.drop c) ∧ construct.EndsAt (text.drop c) n
  counts : countPlaceholdersLoop (text.length + 1) (text ++ [0]) = some (.ok (countPlaceholders text))
  substitutes : ∀ params, substituteParamsLoop params (text.length + 1) (text ++ [0]) =
    some (substituteParams params text)
  notes : ∀ dbc, flSessionNoteLoop dbc (text.length + 1) (text ++ [0]) =
    some (.ok (flSessionNote dbc text))
  steps : segmentsLoop (text.length + 1) (text ++ [0]) = some (.ok (segments flSqlSkip text))
  /-- A boundary cuts the segments in two. -/
  cuts : ∀ a b, text = a ++ b → Boundary flSqlSkip a b →
    segments flSqlSkip text = segments flSqlSkip a ++ segments flSqlSkip b

/-- The scanner keeps to its law on every text without a NUL inside. -/
theorem scannerLaw {text : Bytes} (htext : 0 ∉ text) : ScannerLaw text := by
  have hskip : ∀ c < text.length,
      skipNonPlaceholder ((text ++ [0]).drop c) = some (flSqlSkip (text.drop c)) := by
    intro c hc
    rw [List.drop_append_of_le_length hc.le]
    exact skipNonPlaceholder_append_zero fun h => htext (List.mem_of_mem_drop h)
  constructor
  · intro c hc
    refine ⟨_, hskip c hc, fun n hn => ⟨flSqlSkip_pos hn, ?_⟩⟩
    have hle := flSqlSkip_le hn
    rw [List.length_drop] at hle
    omega
  · intro c hc
    rw [hskip c hc, ← flSqlSkip_isSome_iff, Option.isSome_iff_exists]
    simp only [Option.some.injEq]
  · intro c hc n
    rw [hskip c hc, Option.some.injEq]
    exact flSqlSkip_eq_some_iff
  · exact countPlaceholdersLoop_append_zero htext
  · exact fun params => substituteParamsLoop_append_zero params htext
  · exact fun dbc => flSessionNoteLoop_append_zero dbc htext
  · exact segmentsLoop_append_zero htext
  · rintro a b rfl hboundary
    exact segments_append local_flSqlSkip hboundary

theorem scannerLaw_select : ScannerLaw (lit "SELECT 'it''s \\' ?', a$$b -- ?") := scannerLaw (by decide)

end FrostlakeOdbc
