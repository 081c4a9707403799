import FrostlakeOdbc.LiteralProof
import Mathlib.Data.List.Chain

/-!
# Substitution keeps the segments of a template

`substituteParams` puts a literal in the place of each marker of a template and leaves every other
segment as it is (`substituteParamsFrom_fill`). Where the markers of the template keep apart from
what is around them, the literals and the segments stay what they are side by side (`scans_fill`), so
that the segments of the statement are those of the template, with those of the literals put in.
-/

namespace FrostlakeOdbc

open CString Scan

/-- The segment that marks a parameter. -/
def marker : Bytes := [ch '?']

/-- The segments of a template, with what `f` says of a literal in the place of each marker. -/
def fill (f : Bytes → List Bytes) : List Bytes → List Bytes → List Bytes
  | [], _ => []
  | s :: segs, literals =>
      if s = marker then
        match literals with
        | [] => s :: fill f segs []
        | literal :: literals => f literal ++ fill f segs literals
      else s :: fill f segs literals

theorem fill_marker (f : Bytes → List Bytes) (segs : List Bytes) (literal : Bytes)
    (literals : List Bytes) :
    fill f (marker :: segs) (literal :: literals) = f literal ++ fill f segs literals := rfl

theorem fill_segment (f : Bytes → List Bytes) {s : Bytes} (hs : s ≠ marker)
    (segs literals : List Bytes) : fill f (s :: segs) literals = s :: fill f segs literals :=
  if_neg hs

/-- Without markers there is nothing to fill. -/
theorem fill_nil (f : Bytes → List Bytes) {segs : List Bytes} (h : segs.count marker = 0) :
    fill f segs [] = segs := by
  induction segs with
  | nil => rfl
  | cons s segs ih =>
    have hs : s ≠ marker := by
      rintro rfl
      rw [List.count_cons_self] at h
      cases h
    rw [List.count_cons_of_ne hs] at h
    rw [fill_segment f hs, ih h]

/-- Neighbouring segments, of which neither is a marker that the other one touches. -/
def KeepsApart (a b : Bytes) : Prop :=
  (a = marker → ∀ c ∈ b.head?, apart c = true) ∧ (b = marker → ∀ c ∈ a.getLast?, apart c = true)

instance : DecidableRel KeepsApart := fun a b =>
  inferInstanceAs (Decidable ((a = marker → ∀ c ∈ b.head?, apart c = true) ∧
    (b = marker → ∀ c ∈ a.getLast?, apart c = true)))

/-- A template in which no marker touches a quote, a character of a name or another marker. -/
def MarkersApart (sql : Bytes) : Prop := (segments flSqlSkip sql).IsChain KeepsApart

instance : DecidablePred MarkersApart := fun sql => by
  unfold MarkersApart
  infer_instance

/-! ## The literals take the places of the markers -/

theorem take_marker_ne {s : Bytes} {k : ℕ} (h : flSqlSkip s = some k) : s.take k ≠ marker :=
  take_ne_of_isPlain (by decide) h

/-- The markers of a template are what `count_placeholders` counts. -/
theorem countPlaceholdersFrom_eq : ∀ (fuel : ℕ) {s : Bytes}, s.length ≤ fuel →
    countPlaceholdersFrom fuel s = (segments flSqlSkip s).count marker
  | fuel, [], _ => by cases fuel <;> rfl
  | fuel + 1, c :: rest, hfuel => by
      rw [List.length_cons, Nat.add_le_add_iff_right] at hfuel
      rw [countPlaceholdersFrom]
      cases hskip : flSqlSkip (c :: rest) with
      | some k =>
        dsimp only
        have hpos := flSqlSkip_pos hskip
        have hlen : ((c :: rest).drop k).length ≤ fuel := by
          rw [List.length_drop, List.length_cons]
          omega
        rw [countPlaceholdersFrom_eq fuel hlen, segments_some hskip,
          List.count_cons_of_ne (take_marker_ne hskip)]
      | none =>
        dsimp only
        rw [countPlaceholdersFrom_eq fuel hfuel, segments_none hskip, List.count_cons, Nat.add_comm]
        congr 1
        simp only [marker, beq_iff_eq, List.cons.injEq, and_true]

theorem countPlaceholders_eq (sql : Bytes) :
    countPlaceholders sql = (segments flSqlSkip sql).count marker :=
  countPlaceholdersFrom_eq sql.length le_rfl

/-- `params` are rendered as `literals`, one by one. -/
def Rendered (params : List BoundParam) (literals : List Bytes) : Prop :=
  List.Forall₂ (fun param literal => appendParamLiteral param = .ok literal) params literals

theorem ok_of_map {α β : Type} {x : Except Diag α} {f : α → β} {b : β} (h : x.map f = .ok b) :
    ∃ a, x = .ok a ∧ f a = b := by
  cases x with
  | error e => cases h
  | ok a => exact ⟨a, rfl, Except.ok.inj h⟩

/-- A template of which the parameters are accepted becomes its segments, with the literals in the
places of the markers. -/
theorem substituteParamsFrom_fill : ∀ (fuel : ℕ) {params : List BoundParam} {s result : Bytes},
    s.length ≤ fuel → substituteParamsFrom fuel params s = .ok result →
      ∃ literals, Rendered (params.take ((segments flSqlSkip s).count marker)) literals ∧
        literals.length = (segments flSqlSkip s).count marker ∧
        result = (fill (fun literal => [literal]) (segments flSqlSkip s) literals).flatten
  | fuel, params, [], result, _, h => by
      have hnil : result = [] := by cases fuel <;> exact (Except.ok.inj h).symm
      exact ⟨[], .nil, rfl, hnil⟩
  | fuel + 1, params, c :: rest, result, hfuel, h => by
      rw [List.length_cons, Nat.add_le_add_iff_right] at hfuel
      unfold substituteParamsFrom at h
      cases hskip : flSqlSkip (c :: rest) with
      | some k =>
        rw [hskip] at h
        obtain ⟨result, hresult, rfl⟩ := ok_of_map h
        have hpos := flSqlSkip_pos hskip
        have hlen : ((c :: rest).drop k).length ≤ fuel := by
          rw [List.length_drop, List.length_cons]
          omega
        obtain ⟨literals, hrendered, hcount, rfl⟩ := substituteParamsFrom_fill fuel hlen hresult
        have hne := take_marker_ne hskip
        rw [segments_some hskip, List.count_cons_of_ne hne]
        refine ⟨literals, hrendered, hcount, ?_⟩
        rw [fill_segment _ hne, List.flatten_cons]
      | none =>
        rw [hskip] at h
        dsimp only at h
        rw [segments_none hskip]
        by_cases hmark : c = ch '?'
        · subst hmark
          rw [if_pos rfl] at h
          cases params with
          | nil => cases h
          | cons param params =>
            dsimp only at h
            cases hliteral : appendParamLiteral param with
            | error e =>
              rw [hliteral] at h
              cases h
            | ok literal =>
              rw [hliteral] at h
              obtain ⟨result, hresult, rfl⟩ := ok_of_map h
              obtain ⟨literals, hrendered, hcount, rfl⟩ :=
                substituteParamsFrom_fill fuel hfuel hresult
              have hcons : ([ch '?'] :: segments flSqlSkip rest).count marker =
                  (segments flSqlSkip rest).count marker + 1 := List.count_cons_self
              rw [hcons]
              refine ⟨literal :: literals, .cons hliteral hrendered, congrArg (· + 1) hcount, ?_⟩
              rfl
        · rw [if_neg hmark] at h
          obtain ⟨result, hresult, rfl⟩ := ok_of_map h
          obtain ⟨literals, hrendered, hcount, rfl⟩ := substituteParamsFrom_fill fuel hfuel hresult
          have hne : [c] ≠ marker := fun h => hmark (List.cons.inj h).1
          rw [List.count_cons_of_ne hne]
          refine ⟨literals, hrendered, hcount, ?_⟩
          rw [fill_segment _ hne]
          rfl

/-- A template is accepted where it has a parameter for each marker and each of these has a literal. -/
theorem exists_substituteParamsFrom : ∀ (fuel : ℕ) {params : List BoundParam} {s : Bytes},
    s.length ≤ fuel → (segments flSqlSkip s).count marker ≤ params.length →
      (∀ param ∈ params.take ((segments flSqlSkip s).count marker),
        ∃ literal, appendParamLiteral param = .ok literal) →
      ∃ result, substituteParamsFrom fuel params s = .ok result
  | fuel, _, [], _, _, _ => ⟨[], by cases fuel <;> rfl⟩
  | fuel + 1, params, c :: rest, hfuel, hcount, hparams => by
      rw [List.length_cons, Nat.add_le_add_iff_right] at hfuel
      unfold substituteParamsFrom
      cases hskip : flSqlSkip (c :: rest) with
      | some k =>
        have hpos := flSqlSkip_pos hskip
        have hlen : ((c :: rest).drop k).length ≤ fuel := by
          rw [List.length_drop, List.length_cons]
          omega
        rw [segments_some hskip, List.count_cons_of_ne (take_marker_ne hskip)] at hcount hparams
        obtain ⟨result, hresult⟩ := exists_substituteParamsFrom fuel hlen hcount hparams
        dsimp only
        rw [hresult]
        exact ⟨_, rfl⟩
      | none =>
        dsimp only
        rw [segments_none hskip] at hcount hparams
        by_cases hmark : c = ch '?'
        · subst hmark
          rw [if_pos rfl]
          change (marker :: segments flSqlSkip rest).count marker ≤ _ at hcount
          change ∀ param ∈ params.take ((marker :: segments flSqlSkip rest).count marker), _ at hparams
          rw [List.count_cons_self] at hcount hparams
          cases params with
          | nil => cases hcount
          | cons param params =>
            obtain ⟨literal, hliteral⟩ := hparams param (List.mem_cons_self ..)
            obtain ⟨result, hresult⟩ := exists_substituteParamsFrom fuel hfuel
              (Nat.le_of_succ_le_succ hcount) fun p hp => hparams p (List.mem_cons_of_mem param hp)
            dsimp only
            rw [hliteral, hresult]
            exact ⟨_, rfl⟩
        · have hne : [c] ≠ marker := fun h => hmark (List.cons.inj h).1
          rw [List.count_cons_of_ne hne] at hcount hparams
          obtain ⟨result, hresult⟩ := exists_substituteParamsFrom fuel hfuel hcount hparams
          rw [if_neg hmark, hresult]
          exact ⟨_, rfl⟩

/-! ## Neighbours stay what they are -/

theorem scans_head {s t a : Bytes} {segs : List Bytes} (h : Scans flSqlSkip s (a :: segs) t) :
    ∃ c, a.head? = some c ∧ s.head? = some c := by
  cases h with
  | step hs h =>
    obtain ⟨c, rest, rfl⟩ := List.exists_cons_of_ne_nil hs
    obtain ⟨n, hn⟩ := Nat.exists_eq_succ_of_ne_zero (width_pos flSqlSkip (c :: rest)).ne'
    rw [hn]
    exact ⟨c, rfl, rfl⟩

/-- A statement starts with the first character of a literal, where the template starts with a
marker, and as the template does elsewhere. -/
theorem head_fill {s : Bytes} {segs literals : List Bytes} (hscan : Scans flSqlSkip s segs [])
    (hcount : literals.length = segs.count marker) (hstands : ∀ l ∈ literals, Stands l) :
    ∀ d ∈ (fill (fun literal => [literal]) segs literals).flatten.head?, ∃ b ∈ segs.head?,
      (b = marker ∧ ∃ l, Stands l ∧ d ∈ l.head?) ∨ (b ≠ marker ∧ d ∈ b.head? ∧ d ∈ s.head?) := by
  intro d hd
  cases segs with
  | nil => cases hd
  | cons b segs =>
    refine ⟨b, rfl, ?_⟩
    by_cases hmark : b = marker
    · subst hmark
      rw [List.count_cons_self] at hcount
      cases literals with
      | nil => cases hcount
      | cons literal literals =>
        have hliteral := hstands literal (List.mem_cons_self ..)
        rw [fill_marker, List.singleton_append, List.flatten_cons,
          List.head?_append_of_ne_nil _ hliteral.ne_nil] at hd
        exact Or.inl ⟨rfl, literal, hliteral, hd⟩
    · obtain ⟨c, hb, hs⟩ := scans_head hscan
      have hne : b ≠ [] := by
        rintro rfl
        cases hb
      rw [fill_segment _ hmark, List.flatten_cons, List.head?_append_of_ne_nil _ hne] at hd
      exact Or.inr ⟨hmark, hd, hs ▸ hb ▸ hd⟩

/-- Where the markers keep apart, the template's segments end where they did, and the literals end
where they end. -/
theorem scans_fill {s e : Bytes} {segs : List Bytes} (hscan : Scans flSqlSkip s segs e) :
    e = [] → ∀ {literals : List Bytes}, segs.IsChain KeepsApart →
      literals.length = segs.count marker → (∀ l ∈ literals, Stands l) →
        Scans flSqlSkip (fill (fun literal => [literal]) segs literals).flatten
          (fill (segments flSqlSkip) segs literals) [] := by
  induction hscan with
  | done s => exact fun _ _ _ _ _ => .done []
  | @step s e segs hs hrest ih =>
    rintro rfl literals hchain hcount hstands
    obtain ⟨hnext, htail⟩ := List.isChain_cons.1 hchain
    by_cases hmark : s.take (width flSqlSkip s) = marker
    · rw [hmark] at hnext hcount ⊢
      rw [List.count_cons_self] at hcount
      cases literals with
      | nil => cases hcount
      | cons literal literals =>
        have hstands' : ∀ l ∈ literals, Stands l := fun l hl =>
          hstands l (List.mem_cons_of_mem literal hl)
        have hcount' := Nat.succ.inj hcount
        rw [fill_marker, fill_marker, List.singleton_append, List.flatten_cons]
        refine ((hstands literal (List.mem_cons_self ..)).scans _ fun d hd => ?_).append
          (ih rfl htail hcount' hstands')
        -- what follows a marker is none itself, and starts apart
        obtain ⟨b, hb, hcase⟩ := head_fill hrest hcount' hstands' d hd
        rcases hcase with ⟨rfl, -⟩ | ⟨-, hd, -⟩
        · exact absurd ((hnext _ hb).1 rfl (ch '?') rfl) (by decide)
        · exact (hnext b hb).1 rfl d hd
    · obtain ⟨x, ha, -⟩ := scans_head (Scans.step hs hrest)
      have hne : s.take (width flSqlSkip s) ≠ [] := fun h => by rw [h] at ha; cases ha
      rw [List.count_cons_of_ne hmark] at hcount
      rw [fill_segment _ hmark, fill_segment _ hmark, List.flatten_cons]
      cases segs with
      | nil =>
        -- the template ends here
        have hs' := List.take_append_drop (width flSqlSkip s) s
        rw [← hrest.flatten_append] at hs'
        change Scans flSqlSkip (s.take (width flSqlSkip s) ++ []) _ _
        rw [show s.take (width flSqlSkip s) ++ [] = s from hs']
        exact .step hs hrest
      | cons b segs =>
        obtain ⟨c, -, hc⟩ := scans_head hrest
        have hsplit : s.take (width flSqlSkip s) ++ c :: (s.drop (width flSqlSkip s)).tail = s := by
          rw [← List.eq_cons_of_mem_head? hc, List.take_append_drop]
        refine .cons hne (width_next hne (c := c) (t := (s.drop (width flSqlSkip s)).tail) ?_ ?_)
          (ih rfl htail hcount hstands)
        · rw [hsplit, List.length_take]
          have hlt := List.length_pos_of_mem (List.mem_of_mem_head? hc)
          rw [List.length_drop] at hlt
          omega
        · intro d hd
          obtain ⟨b, hb, hcase⟩ := head_fill hrest hcount hstands d hd
          rcases hcase with ⟨rfl, l, hl, hd⟩ | ⟨-, -, hd⟩
          · exact Or.inr (hl.head d hd _ ((hnext _ hb).2 rfl _ (List.getLast?_eq_some_getLast hne)))
          · exact Or.inl (Option.some.inj (hd.symm.trans hc))

/-! ## What the literals are -/

/-- What the literal of a parameter puts into a statement. -/
structure Contributes (param : BoundParam) (literal : Bytes) : Prop where
  rendered : appendParamLiteral param = .ok literal
  /-- A character value is one complete string that says the bytes of the value, with its cast. -/
  string : ∀ memory, param.buffer = some (.char memory) → param.indicator ≠ sqlNullData →
    param.sqlType.isNumeric = false → ∃ s,
      segments flSqlSkip literal = s :: segments flSqlSkip param.sqlType.cast ∧
        unescapeString s = some (bufferText memory param.indicator)
  /-- A number as text has no special characters, and no segment but characters and names. -/
  number : ∀ memory, param.buffer = some (.char memory) → param.indicator ≠ sqlNullData →
    param.sqlType.isNumeric = true →
      (∀ c ∈ literal, c ∉ special) ∧ ∀ s ∈ segments flSqlSkip literal, isWord s

theorem appendCharLiteral_of_param {param : BoundParam} {literal memory : Bytes}
    (h : appendParamLiteral param = .ok literal) (hbuffer : param.buffer = some (.char memory))
    (hnull : param.indicator ≠ sqlNullData) :
    appendCharLiteral param.sqlType (bufferText memory param.indicator) = .ok literal := by
  rcases appendParamLiteral_cases h with ⟨hnone | hnull', -⟩ | ⟨value, hvalue, -, h⟩
  · rw [hbuffer] at hnone
    cases hnone
  · exact absurd hnull' hnull
  · obtain rfl : CValue.char memory = value := Option.some.inj (hbuffer.symm.trans hvalue)
    exact h

theorem contributes {param : BoundParam} {literal : Bytes}
    (h : appendParamLiteral param = .ok literal) : Contributes param literal where
  rendered := h
  string memory hbuffer hnull hnumeric := by
    have hchar := appendCharLiteral_of_param h hbuffer hnull
    unfold appendCharLiteral at hchar
    rw [hnumeric, if_neg (by decide)] at hchar
    cases hchar
    exact ⟨_, segments_string (bland_cast _) _, unescapeString_appendStringLiteral _⟩
  number memory hbuffer hnull hnumeric := by
    have hchar := appendCharLiteral_of_param h hbuffer hnull
    unfold appendCharLiteral at hchar
    rw [hnumeric, if_pos rfl] at hchar
    split_ifs at hchar with htext
    cases hchar
    have hbland := bland_appendNumber (bland_of_isNumericLiteral htext).1
    exact ⟨fun c hc => notMem_special_of_bland hbland hc, fun s hs => isWord_of_bland hbland hs⟩

/-- The segments of a statement are those of its template, with those of its parameters' literals in
the places of the markers: neither a value nor what is around it changes where the other ends. -/
theorem segments_substituteParams {params : List BoundParam} {sql result : Bytes}
    (hvalues : ∀ param ∈ params, ∀ value ∈ param.buffer, value.isFloating = false)
    (hapart : MarkersApart sql) (h : substituteParams params sql = .ok result) :
    ∃ literals, literals.length = countPlaceholders sql ∧
      List.Forall₂ Contributes (params.take (countPlaceholders sql)) literals ∧
      segments flSqlSkip result =
        fill (segments flSqlSkip) (segments flSqlSkip sql) literals := by
  obtain ⟨literals, hrendered, hcount, rfl⟩ := substituteParamsFrom_fill sql.length le_rfl h
  rw [countPlaceholders_eq]
  refine ⟨literals, hcount, hrendered.imp fun _ _ => contributes, ?_⟩
  have hstands : ∀ l ∈ literals, Stands l := by
    intro l hl
    obtain ⟨i, hi, rfl⟩ := List.getElem_of_mem hl
    have hparam := hrendered.get (hrendered.length_eq ▸ hi) hi
    exact stands_appendParamLiteral
      (hvalues _ (List.mem_of_mem_take (List.get_mem _ _))) hparam
  exact (scans_fill (scans_segments flSqlSkip sql) rfl hapart hcount hstands).segments_eq

/-- A quote and a minus at the places where they could do harm. -/
theorem segments_substituteParams_select :
    ∃ literals, literals.length = countPlaceholders (lit "SELECT ?, 3-?-- ?") ∧
      List.Forall₂ Contributes
        ([⟨true, .varchar, some (.char (lit "it's\\\x00")), none⟩,
          ⟨true, .decimal, some (.char (lit "-5\x00")), none⟩].take
            (countPlaceholders (lit "SELECT ?, 3-?-- ?"))) literals ∧
      segments flSqlSkip (lit "SELECT 'it''s\\\\', 3-(-5)-- ?") =
        fill (segments flSqlSkip) (segments flSqlSkip (lit "SELECT ?, 3-?-- ?")) literals :=
  segments_substituteParams (by decide) (by decide +kernel) rfl

end FrostlakeOdbc
