import FrostlakeOdbc.Execute
import FrostlakeOdbc.ScannerProof

/-!
# Identifiers stand for themselves

A name as `fl_strbuf_append_ident` spells it is one segment of the statement (`width_ident`), and
`track_context` reads it back as the catalog that the name denotes (`trackedName_ident`).
-/

namespace FrostlakeOdbc

open CString Scan

/-- A text in quotes. -/
def inQuotes (body : Bytes) : Bytes := ch '"' :: (body ++ [ch '"'])

/-- What stands for one byte of a name between quotes. -/
def doubleQuote (c : UInt8) : Bytes := if c = ch '"' then [ch '"', c] else [c]

theorem head?_inQuotes (body : Bytes) : (inQuotes body).head? = some (ch '"') := rfl

theorem getLast?_inQuotes (body : Bytes) : (inQuotes body).getLast? = some (ch '"') := by
  show ((ch '"' :: body) ++ [ch '"']).getLast? = _
  exact List.getLast?_concat

theorem dropLast_drop_inQuotes (body : Bytes) : ((inQuotes body).drop 1).dropLast = body :=
  List.dropLast_concat

theorem identIsQuoted_iff {name : Bytes} :
    identIsQuoted name = true ↔ ∃ body, name = inQuotes body ∧ quotesPaired body = true := by
  unfold identIsQuoted
  constructor
  · intro h
    simp only [Bool.and_eq_true, decide_eq_true_eq] at h
    obtain ⟨⟨⟨hlen, hhead⟩, hlast⟩, hpaired⟩ := h
    refine ⟨_, ?_, hpaired⟩
    cases name with
    | nil => cases hhead
    | cons c rest =>
      obtain rfl : c = ch '"' := Option.some.inj hhead
      have hrest : rest ≠ [] := by
        rintro rfl
        exact absurd hlen (by decide)
      have hrestLast : rest.getLast? = some (ch '"') := by
        rw [List.getLast?_cons] at hlast
        rwa [List.getLast?_eq_some_getLast hrest] at hlast ⊢
      have hsplit := List.dropLast_append_getLast? _ hrestLast
      show ch '"' :: rest = ch '"' :: (rest.dropLast ++ [ch '"'])
      rw [hsplit]
  · rintro ⟨body, rfl, hpaired⟩
    have hlen : 2 ≤ (inQuotes body).length := by
      unfold inQuotes
      simp
    rw [head?_inQuotes, getLast?_inQuotes, dropLast_drop_inQuotes, hpaired, decide_eq_true hlen]
    rfl

/-! ## Doubled quotes -/

theorem quotesPaired_cons {c : UInt8} (hc : c ≠ ch '"') (rest : Bytes) :
    quotesPaired (c :: rest) = quotesPaired rest := by
  cases rest with
  | nil =>
    show decide (c ≠ ch '"') = true
    exact decide_eq_true hc
  | cons d rest =>
    show (if c ≠ ch '"' then _ else _) = _
    rw [if_pos hc]

theorem quotesPaired_doubled (name : Bytes) : quotesPaired (name.flatMap doubleQuote) = true := by
  induction name with
  | nil => rfl
  | cons c name ih =>
    rw [List.flatMap_cons]
    unfold doubleQuote at ih ⊢
    by_cases hc : c = ch '"'
    · rw [if_pos hc, hc]
      exact ih
    · rw [if_neg hc]
      exact (quotesPaired_cons hc _).trans ih

theorem undoubleQuotes_cons {c : UInt8} (hc : c ≠ ch '"') (rest : Bytes) :
    undoubleQuotes (c :: rest) = c :: undoubleQuotes rest := by
  cases rest with
  | nil => rfl
  | cons d rest =>
    show (if c = ch '"' ∧ d = ch '"' then _ else _) = _
    rw [if_neg fun h => hc h.1]

theorem undoubleQuotes_doubled (name : Bytes) :
    undoubleQuotes (name.flatMap doubleQuote) = name := by
  induction name with
  | nil => rfl
  | cons c name ih =>
    rw [List.flatMap_cons]
    unfold doubleQuote at ih ⊢
    by_cases hc : c = ch '"'
    · rw [if_pos hc, hc]
      exact congrArg (ch '"' :: ·) ih
    · rw [if_neg hc]
      exact (undoubleQuotes_cons hc _).trans (congrArg (c :: ·) ih)

/-- Behind a body whose quotes are paired the identifier ends with the next quote, unless that is one
of a pair. -/
theorem quotedLength_paired {s : Bytes} (hs : ∀ d ∈ s.head?, d ≠ ch '"') :
    ∀ {body : Bytes}, quotesPaired body = true →
      quotedLength (body ++ ch '"' :: s) = body.length + 1
  | [], _ => by
      cases s with
      | nil => rfl
      | cons d s =>
        show (if ch '"' = ch '"' then if d ≠ ch '"' then 1 else _ else _) = 1
        rw [if_pos rfl, if_pos (hs d rfl)]
  | [c], h => by
      have hc : c ≠ ch '"' := of_decide_eq_true h
      have hend : quotedLength (ch '"' :: s) = 1 :=
        quotedLength_paired hs (rfl : quotesPaired [] = true)
      show (if c = ch '"' then _ else 1 + quotedLength (ch '"' :: s)) = 2
      rw [if_neg hc]
      exact congrArg (1 + ·) hend
  | c :: d :: body, h => by
      show (if c = ch '"' then if d ≠ ch '"' then 1 else 2 + quotedLength (body ++ ch '"' :: s)
        else 1 + quotedLength (d :: body ++ ch '"' :: s)) = (d :: body).length + 1 + 1
      by_cases hc : c = ch '"'
      · rw [quotesPaired, if_neg (not_not.2 hc), Bool.and_eq_true, decide_eq_true_eq] at h
        rw [if_pos hc, if_neg (not_not.2 h.1), quotedLength_paired hs h.2, List.length_cons]
        omega
      · rw [quotesPaired, if_pos hc] at h
        rw [if_neg hc, quotedLength_paired hs h]
        omega

/-! ## Bare names -/

theorem identIsBare_iff {name : Bytes} :
    identIsBare name = true ↔
      ∃ c rest, name = c :: rest ∧ isNameStart c = true ∧ ∀ d ∈ rest, isNameChar d = true := by
  cases name with
  | nil =>
    apply iff_of_false Bool.false_ne_true
    rintro ⟨c, rest, h, -⟩
    cases h
  | cons c rest =>
    show (isNameStart c && rest.all isNameChar) = true ↔ _
    rw [Bool.and_eq_true, List.all_eq_true]
    constructor
    · rintro ⟨hc, hrest⟩
      exact ⟨c, rest, rfl, hc, hrest⟩
    · rintro ⟨c', rest', heq, hc, hrest⟩
      cases heq
      exact ⟨hc, hrest⟩

theorem isNameChar_of_identIsBare {name : Bytes} (h : identIsBare name = true) {c : UInt8}
    (hc : c ∈ name) : isNameChar c = true := by
  obtain ⟨c', rest, rfl, hstart, hrest⟩ := identIsBare_iff.1 h
  rcases List.mem_cons.1 hc with rfl | hc
  · exact isNameChar_of_isNameStart hstart
  · exact hrest c hc

/-! ## How a name is spelled -/

/-- A name is spelled as it is or in quotes. -/
theorem ident_cases (name : Bytes) :
    (ident name = name ∧ identIsBare name = true) ∨
      ∃ body, ident name = inQuotes body ∧ quotesPaired body = true ∧
        (name = inQuotes body ∨
          identIsBare name = false ∧ identIsQuoted name = false ∧
            body = name.flatMap doubleQuote) := by
  unfold ident
  cases hquoted : identIsQuoted name with
  | true =>
    obtain ⟨body, hname, hpaired⟩ := identIsQuoted_iff.1 hquoted
    exact .inr ⟨body, hname, hpaired, .inl hname⟩
  | false =>
    cases hbare : identIsBare name with
    | true => exact .inl ⟨rfl, rfl⟩
    | false =>
      exact .inr ⟨name.flatMap doubleQuote, rfl, quotesPaired_doubled name, .inr ⟨rfl, rfl, rfl⟩⟩

/-- A character that does not go on with an identifier. -/
def endsIdent (c : UInt8) : Bool := c ≠ ch '"' && !isNameChar c

theorem width_ident (name : Bytes) {s : Bytes} (hs : ∀ d ∈ s.head?, endsIdent d = true) :
    width flSqlSkip (ident name ++ s) = (ident name).length := by
  have hends : ∀ d ∈ s.head?, d ≠ ch '"' ∧ isNameChar d = false := by
    intro d hd
    have h := hs d hd
    unfold endsIdent at h
    rwa [Bool.and_eq_true, decide_eq_true_eq, Bool.not_eq_true'] at h
  obtain ⟨heq, hbare⟩ | ⟨body, heq, hpaired, -⟩ := ident_cases name
  · rw [heq]
    obtain ⟨c, rest, rfl, hc, hrest⟩ := identIsBare_iff.1 hbare
    exact width_name hc hrest fun d hd => (hends d hd).2
  · rw [heq]
    show width flSqlSkip (ch '"' :: (body ++ [ch '"'] ++ s)) = (body ++ [ch '"']).length + 1
    rw [width_of_some (flSqlSkip_quoted _), List.append_assoc]
    rw [show [ch '"'] ++ s = ch '"' :: s from rfl]
    rw [quotedLength_paired (fun d hd => (hends d hd).1) hpaired, List.length_append, Nat.add_comm]
    rfl

theorem head?_ident (name : Bytes) :
    ∃ c, (ident name).head? = some c ∧ (c = ch '"' ∨ isNameStart c = true) := by
  obtain ⟨heq, hbare⟩ | ⟨body, heq, -⟩ := ident_cases name
  · obtain ⟨c, rest, rfl, hc, -⟩ := identIsBare_iff.1 hbare
    exact ⟨c, congrArg List.head? heq, .inr hc⟩
  · exact ⟨ch '"', congrArg List.head? heq, .inl rfl⟩

theorem ident_ne_nil (name : Bytes) : ident name ≠ [] := by
  obtain ⟨c, hhead, -⟩ := head?_ident name
  intro hnil
  rw [hnil] at hhead
  cases hhead

/-- An identifier is one segment of a statement. -/
theorem scans_ident (name : Bytes) {s : Bytes} (hs : ∀ d ∈ s.head?, endsIdent d = true) :
    Scans flSqlSkip (ident name ++ s) [ident name] s :=
  .one (ident_ne_nil name) (width_ident name hs)

/-! ## What a name denotes -/

/-- The catalog a name denotes: a bare name is folded, a quoted one is what is between the quotes,
and any other text is a name of its own. -/
def denoted (name : Bytes) : Bytes :=
  if identIsBare name then name.map toUpper
  else if identIsQuoted name then undoubleQuotes (name.drop 1).dropLast
  else name

theorem toUpper_eq_self_iff (c : UInt8) : toUpper c = c ↔ isLower c = false := by
  apply forall_byte (P := fun c => toUpper c = c ↔ isLower c = false)
  decide +kernel

theorem map_toUpper_eq_self_iff {name : Bytes} :
    name.map toUpper = name ↔ ∀ c ∈ name, isLower c = false := by
  induction name with
  | nil => exact iff_of_true rfl fun c hc => absurd hc List.not_mem_nil
  | cons c name ih =>
    rw [List.map_cons, List.cons.injEq, toUpper_eq_self_iff, ih, List.forall_mem_cons]

theorem length_undoubleQuotes_le : ∀ body : Bytes, (undoubleQuotes body).length ≤ body.length
  | [] => le_rfl
  | [_] => le_rfl
  | c :: d :: rest => by
      by_cases h : c = ch '"' ∧ d = ch '"'
      · have hrest := length_undoubleQuotes_le rest
        rw [undoubleQuotes, if_pos h, List.length_cons, List.length_cons, List.length_cons]
        omega
      · have hrest := length_undoubleQuotes_le (d :: rest)
        rw [undoubleQuotes, if_neg h, List.length_cons, List.length_cons (a := c)]
        omega

/-- A name that denotes itself: nothing of it is folded and it is not in quotes. -/
def DenotesItself (name : Bytes) : Prop :=
  (identIsBare name = true ∧ ∀ c ∈ name, isLower c = false) ∨
    (identIsBare name = false ∧ identIsQuoted name = false)

theorem denoted_eq_self_iff {name : Bytes} : denoted name = name ↔ DenotesItself name := by
  unfold denoted DenotesItself
  cases hbare : identIsBare name with
  | true =>
    rw [if_pos rfl, map_toUpper_eq_self_iff]
    simp
  | false =>
    rw [if_neg Bool.false_ne_true]
    cases hquoted : identIsQuoted name with
    | false => simp
    | true =>
      rw [if_pos rfl]
      refine iff_of_false (fun heq => ?_) (by simp)
      obtain ⟨body, hname, -⟩ := identIsQuoted_iff.1 hquoted
      have hle := length_undoubleQuotes_le (name.drop 1).dropLast
      rw [heq, hname, dropLast_drop_inQuotes] at hle
      unfold inQuotes at hle
      simp only [List.length_cons, List.length_append, List.length_nil] at hle
      omega

theorem trimEnd_append {p : UInt8 → Bool} {e : Bytes} (he : ∀ c ∈ e, p c = true) (a : Bytes) :
    trimEnd p (a ++ e) = trimEnd p a := by
  unfold trimEnd
  rw [List.reverse_append, List.dropWhile_append_of_pos fun c hc => he c (List.mem_reverse.1 hc)]

theorem trimEnd_of_getLast? {p : UInt8 → Bool} {s : Bytes} {c : UInt8} (h : s.getLast? = some c)
    (hc : p c = false) : trimEnd p s = s := by
  obtain ⟨front, rfl⟩ := List.getLast?_eq_some_iff.1 h
  unfold trimEnd
  rw [List.reverse_append, List.reverse_singleton, List.singleton_append, List.dropWhile_cons, hc]
  rw [if_neg Bool.false_ne_true, List.reverse_cons, List.reverse_reverse]

/-- `track_context` takes an identifier as it is, without anything around it. -/
theorem trackedName_of_ends {name : Bytes} {c d : UInt8} (hhead : name.head? = some c)
    (hlast : name.getLast? = some d) (hc : endsIdent c = false) (hd : endsIdent d = false) :
    trackedName name =
      if c = ch '"' ∧ 2 ≤ name.length ∧ d = ch '"' then
        some (undoubleQuotes (name.drop 1).dropLast)
      else some (name.map toUpper) := by
  have hne : ∀ {x : UInt8}, endsIdent x = false → ∀ y, endsIdent y = true → x ≠ y := by
    rintro x hx y hy rfl
    rw [hx] at hy
    cases hy
  obtain ⟨rest, rfl⟩ : ∃ rest, name = c :: rest := by
    cases name with
    | nil => cases hhead
    | cons x rest => exact ⟨rest, congrArg (· :: rest) (Option.some.inj hhead)⟩
  have hfront : (c :: rest).dropWhile (fun c => c = ch ' ') = c :: rest := by
    rw [List.dropWhile_cons, decide_eq_false (hne hc (ch ' ') (by decide)),
      if_neg Bool.false_ne_true]
  have hback : trimEnd (fun c => c = ch ';' || c = ch ' ' || c = ch '\n' || c = ch '\r')
      (c :: rest) = c :: rest := by
    refine trimEnd_of_getLast? hlast ?_
    rw [decide_eq_false (hne hd (ch ';') (by decide)), decide_eq_false (hne hd (ch ' ') (by decide)),
      decide_eq_false (hne hd (ch '\n') (by decide)), decide_eq_false (hne hd (ch '\r') (by decide))]
    rfl
  unfold trackedName
  dsimp only
  rw [hfront, hback, hlast]
  rw [if_neg (List.cons_ne_nil c rest), List.head?_cons]
  simp only [Option.some.injEq]

/-- `track_context` reads an identifier back. -/
theorem trackedName_ident (name : Bytes) : trackedName (ident name) = some (denoted name) := by
  obtain ⟨heq, hbare⟩ | ⟨body, heq, hpaired, hname⟩ := ident_cases name
  · obtain ⟨c, rest, rfl, hc, -⟩ := identIsBare_iff.1 hbare
    have hchar : ∀ d ∈ c :: rest, endsIdent d = false := by
      intro d hd
      unfold endsIdent
      rw [isNameChar_of_identIsBare hbare hd]
      exact Bool.and_false _
    have hquote : c ≠ ch '"' := by
      rintro rfl
      revert hc
      decide
    have hlast := List.getLast?_eq_some_getLast (List.cons_ne_nil c rest)
    rw [heq, trackedName_of_ends rfl hlast (hchar c (List.mem_cons_self ..))
      (hchar _ (List.mem_of_getLast? hlast)), if_neg fun h => hquote h.1]
    unfold denoted
    rw [if_pos hbare]
  · have hends : endsIdent (ch '"') = false := by decide
    have hlen : 2 ≤ (inQuotes body).length := by
      unfold inQuotes
      simp
    rw [heq, trackedName_of_ends (head?_inQuotes body) (getLast?_inQuotes body) hends hends]
    rw [if_pos ⟨rfl, hlen, rfl⟩, dropLast_drop_inQuotes]
    unfold denoted
    obtain rfl | ⟨hbare, hquoted, rfl⟩ := hname
    · have hbare : identIsBare (inQuotes body) = false := rfl
      rw [hbare, identIsQuoted_iff.2 ⟨body, rfl, hpaired⟩, dropLast_drop_inQuotes]
      rfl
    · rw [hbare, hquoted, undoubleQuotes_doubled]
      rfl

end FrostlakeOdbc
