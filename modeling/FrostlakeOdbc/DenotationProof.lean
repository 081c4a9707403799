import FrostlakeOdbc.CurrentCatalog

/-!
# What an identifier denotes

Of every name `fl_strbuf_append_ident` makes one identifier, for the scanner and for `track_context`,
that denotes what the name does if it is an identifier itself, and else the name (`ident_denotes`).
-/

namespace FrostlakeOdbc

open CString

/-- The object that an identifier names: a bare name is folded, and between quotes each quote of a name
is doubled. -/
inductive Denotes : Bytes → Bytes → Prop
  | bare {c : UInt8} {rest : Bytes} (hstart : isNameStart c = true)
      (hrest : ∀ d ∈ rest, isNameChar d = true) : Denotes (c :: rest) ((c :: rest).map toUpper)
  | quoted (value : Bytes) : Denotes (inQuotes (value.flatMap doubleQuote)) value

/-- The quotes of a name are paired if they are doubled, and only then. -/
theorem doubled_undoubleQuotes :
    ∀ {body : Bytes}, quotesPaired body = true → (undoubleQuotes body).flatMap doubleQuote = body
  | [], _ => rfl
  | [c], h => by
      have hc : c ≠ ch '"' := of_decide_eq_true h
      show doubleQuote c ++ [] = [c]
      rw [doubleQuote, if_neg hc, List.append_nil]
  | c :: d :: body, h => by
      by_cases hc : c = ch '"'
      · rw [quotesPaired, if_neg (not_not.2 hc), Bool.and_eq_true, decide_eq_true_eq] at h
        rw [undoubleQuotes, if_pos ⟨hc, h.1⟩, List.flatMap_cons, doubled_undoubleQuotes h.2,
          doubleQuote, if_pos h.1, hc, h.1]
        rfl
      · rw [quotesPaired, if_pos hc] at h
        rw [undoubleQuotes_cons hc, List.flatMap_cons, doubled_undoubleQuotes h, doubleQuote, if_neg hc]
        rfl

theorem denotes_inQuotes {body : Bytes} (h : quotesPaired body = true) :
    Denotes (inQuotes body) (undoubleQuotes body) := by
  have hquoted := Denotes.quoted (undoubleQuotes body)
  rwa [doubled_undoubleQuotes h] at hquoted

theorem denoted_inQuotes {body : Bytes} (h : quotesPaired body = true) :
    denoted (inQuotes body) = undoubleQuotes body := by
  have hbare : identIsBare (inQuotes body) = false := rfl
  have hquoted : identIsQuoted (inQuotes body) = true := identIsQuoted_iff.2 ⟨body, rfl, h⟩
  unfold denoted
  rw [hbare, if_neg Bool.false_ne_true, if_pos hquoted, dropLast_drop_inQuotes]

/-- An identifier denotes one object only. -/
theorem Denotes.eq_denoted {name value : Bytes} (h : Denotes name value) : value = denoted name := by
  cases h with
  | bare hstart hrest =>
    unfold denoted
    rw [if_pos (identIsBare_iff.2 ⟨_, _, rfl, hstart, hrest⟩)]
  | quoted =>
    rw [denoted_inQuotes (quotesPaired_doubled value), undoubleQuotes_doubled]

theorem denotes_of_identIsBare {name : Bytes} (h : identIsBare name = true) :
    Denotes name (denoted name) := by
  obtain ⟨c, rest, rfl, hstart, hrest⟩ := identIsBare_iff.1 h
  have hbare := Denotes.bare hstart hrest
  rwa [hbare.eq_denoted] at hbare

/-- What the driver writes for a name is an identifier. It is the name where this is one. -/
theorem denotes_ident (name : Bytes) :
    Denotes (ident name) (denoted name) ∧
      (ident name = name ∨ denoted name = name ∧ ∀ value, ¬Denotes name value) := by
  obtain ⟨heq, hbare⟩ | ⟨body, heq, hpaired, rfl | ⟨hbare, hquoted, rfl⟩⟩ := ident_cases name
  · rw [heq]
    exact ⟨denotes_of_identIsBare hbare, .inl rfl⟩
  · rw [heq, denoted_inQuotes hpaired]
    exact ⟨denotes_inQuotes hpaired, .inl rfl⟩
  · have hself : denoted name = name := denoted_eq_self_iff.2 (.inr ⟨hbare, hquoted⟩)
    rw [heq, hself]
    refine ⟨.quoted name, .inr ⟨rfl, fun value h => ?_⟩⟩
    cases h with
    | bare hstart hrest =>
      rw [identIsBare_iff.2 ⟨_, _, rfl, hstart, hrest⟩] at hbare
      cases hbare
    | quoted =>
      rw [identIsQuoted_iff.2 ⟨_, rfl, quotesPaired_doubled value⟩] at hquoted
      cases hquoted

theorem flSqlSkip_ident (name : Bytes) {s : Bytes} (hs : ∀ d ∈ s.head?, endsIdent d = true) :
    flSqlSkip (ident name ++ s) = some (ident name).length := by
  obtain ⟨c, hhead, hc⟩ := head?_ident name
  obtain ⟨rest, hrest⟩ := List.head?_eq_some_iff.1 hhead
  have hopens : ∃ n, flSqlSkip (ident name ++ s) = some n := by
    rw [hrest]
    rcases hc with rfl | hc
    · exact ⟨_, flSqlSkip_quoted _⟩
    · exact ⟨_, flSqlSkip_name _ hc⟩
  obtain ⟨n, hn⟩ := hopens
  rw [hn, ← width_ident name hs, width_of_some hn]

/-- An identifier is written as it is. -/
theorem ident_of_denotes {name value : Bytes} (h : Denotes name value) : ident name = name :=
  (denotes_ident name).2.resolve_right fun hnot => hnot.2 value h

/-- `fl_strbuf_append_ident` refuses an empty name. What it appends for any other is one identifier,
whatever the name holds and whatever comes behind it. It denotes what the name does if this is an
identifier, and else the name, and `track_context` keeps what it denotes. -/
theorem ident_denotes (name : Bytes) :
    ∃ appended value,
      (∀ buf, flStrbufAppendIdent buf name = if name = [] then none else some (buf ++ appended)) ∧
      (∀ s : Bytes, (∀ d ∈ s.head?, isNameChar d = false ∧ d ≠ ch '"') →
        flSqlSkip (appended ++ s) = some appended.length) ∧
      Denotes appended value ∧ (∀ other, Denotes appended other → other = value) ∧
      ((∃ named, Denotes name named) → appended = name) ∧
      ((∀ named, ¬Denotes name named) → value = name) ∧
      (∀ dbc, trackContext dbc (lit "USE DATABASE " ++ appended) =
        { dbc with database := some value }) ∧
      ∀ buf, flStrbufAppendIdent buf appended = some (buf ++ appended) := by
  obtain ⟨hdenotes, hname⟩ := denotes_ident name
  refine ⟨ident name, denoted name, fun buf => rfl, ?_, hdenotes, ?_, ?_,
    ?_, ?_, ?_⟩
  · intro s hs
    refine flSqlSkip_ident name fun d hd => ?_
    obtain ⟨hchar, hquote⟩ := hs d hd
    unfold endsIdent
    rw [hchar, decide_eq_true hquote]
    rfl
  · intro other hother
    rw [hother.eq_denoted, hdenotes.eq_denoted]
  · rintro ⟨named, hnamed⟩
    exact ident_of_denotes hnamed
  · intro hnot
    refine (hname.resolve_left fun heq => ?_).1
    rw [heq] at hdenotes
    exact hnot _ hdenotes
  · intro dbc
    exact trackContext_useDatabase dbc name
  · intro buf
    unfold flStrbufAppendIdent
    rw [if_neg (ident_ne_nil name), ident_of_denotes hdenotes]

end FrostlakeOdbc
