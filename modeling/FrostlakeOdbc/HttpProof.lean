import FrostlakeOdbc.Http
import FrostlakeOdbc.JsonPrefix
import FrostlakeOdbc.Lib.HttpText

/-!
# No truncated response passes for a complete one

A response that was cut short is refused, or hands a prefix of its body to the JSON parser
(`readResponse_prefix`); and the JSON parser reads nothing from a proper prefix of an object.
-/

namespace FrostlakeOdbc

open CString JsonText HttpText

/-! ## Chunks -/

theorem numeral_append {base n : ℕ} {s : Bytes} (hbase : base = 10 ∨ base = 16)
    (h : Numeral base n s) (hn : n < 2 ^ 63) {rest : Bytes}
    (hrest : ∀ c ∈ rest.head?, digitValue base c = none ∧ c ≠ ch 'x' ∧ c ≠ ch 'X') :
    strtol base (s ++ rest) = n := by
  rw [strtol_digits hbase h.ne_nil h.digits hrest, h.value]
  unfold longMax
  omega

theorem strtol_size {n : ℕ} {size : Bytes} (h : Numeral 16 n size) (hn : n < 2 ^ 63) (rest : Bytes) :
    strtol 16 (size ++ (crlf ++ rest)) = n := by
  refine numeral_append (Or.inr rfl) h hn fun c hc => ?_
  obtain rfl : ch '\r' = c := by simpa [crlf] using hc
  decide

theorem find_size {n : ℕ} {size : Bytes} (h : Numeral 16 n size) (rest : Bytes) :
    find crlf (size ++ (crlf ++ rest)) = some size.length := by
  have hno : ∀ c ∈ size, c ≠ ch '\r' := fun c hc => (digit_facts (h.digits c hc)).2.2.2.2.2
  have h0 : find crlf (crlf ++ rest) = some 0 := find_of_prefix (List.prefix_append _ _)
  rw [crlf] at h0 ⊢
  rw [find_append_of_forall hno, h0, Option.map_some, Nat.zero_add]

/-- A prefix in which the line of a chunk size ends has the whole of that line. -/
theorem prefix_of_find {size rest q : Bytes} {n m : ℕ} (h : Numeral 16 n size)
    (hq : q <+: size ++ (crlf ++ rest)) (hm : find crlf q = some m) :
    m = size.length ∧ ∃ q', q = size ++ (crlf ++ q') ∧ q' <+: rest := by
  obtain ⟨x, hx⟩ := hq
  have hfind := find_append hm x
  rw [hx, find_size h] at hfind
  obtain rfl := (Option.some.inj hfind).symm
  refine ⟨rfl, ?_⟩
  have hlen := find_length hm
  have hline : size ++ crlf <+: size ++ (crlf ++ rest) := by
    rw [← List.append_assoc]
    exact List.prefix_append _ _
  have hpre : size ++ crlf <+: q := by
    refine List.prefix_of_prefix_length_le hline ⟨x, hx⟩ ?_
    rwa [List.length_append]
  obtain ⟨q', rfl⟩ := hpre
  rw [List.append_assoc] at hx ⊢
  refine ⟨q', rfl, x, ?_⟩
  simpa using hx

section

variable (length fuel : ℕ) (out : Bytes)

theorem decodeChunkedFrom_nil : decodeChunkedFrom length fuel out [] = .decoded out := by
  cases fuel <;> rfl

theorem decodeChunkedFrom_noLine {q : Bytes} (hq : q ≠ []) (h : find crlf q = none) :
    decodeChunkedFrom length (fuel + 1) out q = .malformed := by
  have h' : find (lit "\r\n") q = none := h
  rw [decodeChunkedFrom, if_neg hq]
  simp only [h']

/-- The line of a chunk size is read. -/
theorem decodeChunkedFrom_size {n : ℕ} {size : Bytes} (h : Numeral 16 n size) (hn : n < 2 ^ 63)
    (q : Bytes) :
    decodeChunkedFrom length (fuel + 1) out (size ++ (crlf ++ q)) =
      if n = 0 then .decoded out
      else if q.length < n then .malformed
      else decodeChunkedFrom length fuel (out ++ q.take n)
        (if crlf.isPrefixOf (q.drop n) then (q.drop n).drop 2 else q.drop n) := by
  have hne : size ++ (crlf ++ q) ≠ [] := by simp [h.ne_nil]
  have hfind : find (lit "\r\n") (size ++ (crlf ++ q)) = some size.length := find_size h q
  have hdrop : (size ++ (crlf ++ q)).drop (size.length + 2) = q := by
    rw [← List.append_assoc, List.drop_append_of_le_length (by simp [crlf])]
    rw [List.drop_of_length_le (by simp [crlf]), List.nil_append]
  rw [decodeChunkedFrom, if_neg hne]
  simp only [hfind, hdrop, strtol_size h hn]
  by_cases h0 : n = 0
  · rw [if_pos h0, if_pos (by omega)]
  · rw [if_neg h0, if_neg (by omega), if_neg (by omega)]
    by_cases hlt : q.length < n
    · rw [if_pos hlt, if_pos (by omega)]
    · rw [if_neg hlt, if_neg (by omega), Int.toNat_natCast]
      rfl

end

/-- What `decode_chunked` makes of a prefix `q` of the stream `s`: it is refused, or what it decodes
to is a prefix of the body; and the whole stream decodes to the body. -/
def DecodesPrefix (length fuel : ℕ) (out q s body : Bytes) : Prop :=
  (decodeChunkedFrom length fuel out q = .malformed ∨
    ∃ b, b <+: body ∧ decodeChunkedFrom length fuel out q = .decoded (out ++ b)) ∧
  (q = s → decodeChunkedFrom length fuel out q = .decoded (out ++ body))

/-- A stream that ends before the line of a size does is refused, or ends between chunks. -/
theorem decodesPrefix_of_line {length fuel : ℕ} {out q s body : Bytes} (h : Chunks body s)
    (hf : q.length ≤ fuel)
    (hline : ∀ m fuel', fuel = fuel' + 1 → find crlf q = some m →
      DecodesPrefix length fuel out q s body) : DecodesPrefix length fuel out q s body := by
  obtain ⟨n, size, rest, hsize, rfl⟩ :
      ∃ n size rest, Numeral 16 n size ∧ s = size ++ (crlf ++ rest) := by
    cases h with
    | last hsize => exact ⟨_, _, _, hsize, rfl⟩
    | cons hdata hsize hrest => exact ⟨_, _, _, hsize, rfl⟩
  by_cases hnil : q = []
  · subst hnil
    rw [DecodesPrefix, decodeChunkedFrom_nil]
    refine ⟨Or.inr ⟨[], List.nil_prefix, by rw [List.append_nil]⟩, fun hs => ?_⟩
    simp [hsize.ne_nil] at hs
  have hpos := List.length_pos_iff.2 hnil
  obtain ⟨fuel, rfl⟩ : ∃ n, fuel = n + 1 := ⟨fuel - 1, by omega⟩
  cases hfind : find crlf q with
  | none =>
    rw [DecodesPrefix, decodeChunkedFrom_noLine _ _ _ hnil hfind]
    refine ⟨Or.inl rfl, fun hs => ?_⟩
    rw [hs, find_size hsize] at hfind
    cases hfind
  | some m => exact hline m fuel rfl hfind

theorem prefix_crlf_cases {q s : Bytes} (h : q <+: crlf ++ s) :
    (∃ r, q = crlf ++ r ∧ r <+: s) ∨ q = [] ∨ q = [ch '\r'] := by
  rcases q with _ | ⟨a, _ | ⟨b, r⟩⟩
  · exact Or.inr (Or.inl rfl)
  · have : a = ch '\r' := (List.cons_prefix_cons.1 h).1
    exact Or.inr (Or.inr (by rw [this]))
  · obtain ⟨rfl, h'⟩ := List.cons_prefix_cons.1 h
    obtain ⟨rfl, h''⟩ := List.cons_prefix_cons.1 h'
    exact Or.inl ⟨r, rfl, h''⟩

theorem decodesPrefix {body s : Bytes} (h : Chunks body s) (hlen : body.length < 2 ^ 63)
    (length : ℕ) {fuel : ℕ} {out q : Bytes} (hq : q <+: s) (hf : q.length ≤ fuel) :
    DecodesPrefix length fuel out q s body := by
  induction h generalizing fuel out q with
  | @last size trailer hsize =>
    refine decodesPrefix_of_line (.last hsize) hf fun m fuel' hfuel hfind => ?_
    subst hfuel
    obtain ⟨-, q', rfl, -⟩ := prefix_of_find hsize hq hfind
    rw [DecodesPrefix, decodeChunkedFrom_size _ _ _ hsize (by decide), if_pos rfl]
    exact ⟨Or.inr ⟨[], List.nil_prefix, by rw [List.append_nil]⟩, fun _ => by rw [List.append_nil]⟩
  | @cons data size body s hdata hsize hrest ih =>
    refine decodesPrefix_of_line (.cons hdata hsize hrest) hf fun m fuel' hfuel hfind => ?_
    subst hfuel
    obtain ⟨-, q', rfl, hq'⟩ := prefix_of_find hsize hq hfind
    have hpos := List.length_pos_iff.2 hdata
    rw [List.length_append] at hlen
    rw [DecodesPrefix, decodeChunkedFrom_size _ _ _ hsize (by omega), if_neg (by omega)]
    by_cases hlt : q'.length < data.length
    · rw [if_pos hlt]
      refine ⟨Or.inl rfl, fun hs => ?_⟩
      have := congrArg List.length hs
      simp only [List.length_append] at this
      omega
    rw [if_neg hlt]
    -- the data are there; what follows them is cut, or is the rest of the stream
    obtain ⟨q'', rfl⟩ := List.prefix_of_prefix_length_le (List.prefix_append data (crlf ++ s)) hq'
      (by omega)
    have hq'' : q'' <+: crlf ++ s := by
      obtain ⟨x, hx⟩ := hq'
      exact ⟨x, by simpa using hx⟩
    rw [List.take_left, List.drop_left]
    simp only [List.length_append] at hf
    rcases prefix_crlf_cases hq'' with ⟨r, rfl, hr⟩ | rfl | rfl
    · have hskip : crlf.isPrefixOf (crlf ++ r) = true :=
        List.isPrefixOf_iff_prefix.2 (List.prefix_append _ _)
      have hdrop : (crlf ++ r).drop 2 = r := rfl
      rw [if_pos hskip, hdrop]
      simp only [List.length_append] at hf
      have hih : DecodesPrefix length fuel' (out ++ data) r s body := ih (by omega) hr (by omega)
      obtain ⟨hcut, hfull⟩ := hih
      refine ⟨?_, fun hs => ?_⟩
      · rcases hcut with hmal | ⟨b, hb, hdec⟩
        · exact Or.inl hmal
        · refine Or.inr ⟨data ++ b, (List.prefix_append_right_inj data).2 hb, ?_⟩
          rw [hdec, List.append_assoc]
      · have : r = s := by simpa using hs
        rw [hfull this, List.append_assoc]
    · rw [if_neg (by decide), decodeChunkedFrom_nil]
      refine ⟨Or.inr ⟨data, List.prefix_append _ _, rfl⟩, fun hs => ?_⟩
      simp [crlf] at hs
    · simp only [List.length_singleton] at hf
      obtain ⟨fuel', rfl⟩ : ∃ n, fuel' = n + 1 := ⟨fuel' - 1, by omega⟩
      rw [if_neg (by decide), decodeChunkedFrom_noLine _ _ _ (by simp) (by rfl)]
      refine ⟨Or.inl rfl, fun hs => ?_⟩
      simp [crlf] at hs

/-! ## Header fields -/

/-- Whether `find_header` stops at a line. -/
def lineNames (name l : Bytes) : Bool :=
  name.length + 1 < l.length && strncaseeq l name name.length && l[name.length]? = some (ch ':')

theorem joinLines_cons (l : Bytes) (ls : List Bytes) :
    joinLines (l :: ls) = l ++ (if ls = [] then [] else crlf ++ joinLines ls) := by
  cases ls with
  | nil => simp [joinLines]
  | cons m ls => rfl

theorem findHeaderFrom_joinLines (name : Bytes) {l : Bytes} {ls : List Bytes} (hl : Line l) (fuel : ℕ) :
    findHeaderFrom name (fuel + 1) (joinLines (l :: ls)) =
      if lineNames name l then
        some (((joinLines (l :: ls)).drop (name.length + 1)).dropWhile isHeaderBlank)
      else if ls = [] then none else findHeaderFrom name fuel (joinLines ls) := by
  have hne : joinLines (l :: ls) ≠ [] := by
    obtain ⟨c, s, hj, -⟩ := joinLines_head ls hl
    rw [hj]
    exact List.cons_ne_nil _ _
  have hnames : ∀ {n : ℕ}, n = l.length → (decide (name.length + 1 < n) &&
      strncaseeq (joinLines (l :: ls)) name name.length &&
      decide ((joinLines (l :: ls))[name.length]? = some (ch ':'))) = lineNames name l := by
    rintro n rfl
    by_cases hlt : name.length + 1 < l.length
    · rw [lineNames, joinLines_cons, strncaseeq, strncaseeq, List.take_append_of_le_length (by omega),
        List.getElem?_append_left (by omega)]
    · simp [lineNames, hlt]
  rw [findHeaderFrom, if_neg hne]
  by_cases hls : ls = []
  · subst hls
    have hfind : find (lit "\r\n") (joinLines [l]) = none := find_crlf_of_line hl
    simp only [hfind, Option.getD_none, if_true]
    rw [hnames (by simp [joinLines])]
  · have hfind : find (lit "\r\n") (joinLines (l :: ls)) = some l.length := by
      rw [joinLines_cons, if_neg hls]
      exact find_crlf_line hl _
    have hdrop : (joinLines (l :: ls)).drop (l.length + 2) = joinLines ls := by
      rw [joinLines_cons, if_neg hls, ← List.append_assoc,
        List.drop_append_of_le_length (by simp [crlf]), List.drop_of_length_le (by simp [crlf]),
        List.nil_append]
    simp only [hfind, Option.getD_some, if_neg hls, hdrop]
    rw [hnames rfl]

/-- The names that are looked for: they are not empty, hold no colon, and the status line does not
start with them. -/
structure Sought (name : Bytes) : Prop where
  ne_nil : name ≠ []
  no_colon : ch ':' ∉ name
  not_status : toUpper (ch 'H') ∉ (name.map toUpper).head?

/-- A field's line is one `find_header` stops at if it has the name, and a value. -/
theorem lineNames_field {name : Bytes} (hname : ch ':' ∉ name) (f : Field) :
    lineNames name f.line = (strcaseeq f.name name && decide (f.value ≠ [])) := by
  have hlen : f.line.length = f.name.length + 1 + f.value.length := by
    simp only [Field.line, List.length_append, List.length_cons]
    omega
  rw [Bool.eq_iff_iff]
  simp only [lineNames, strncaseeq, strcaseeq, Bool.and_eq_true, decide_eq_true_eq,
    List.take_length]
  constructor
  · rintro ⟨⟨hlt, htake⟩, hcolon⟩
    have heq : f.name.length = name.length := by
      by_contra hne
      rcases Nat.lt_or_gt_of_ne hne with h | h
      · -- the colon of the line would be a byte of the name
        have hat := congrArg (fun t => t[f.name.length]?) htake
        simp only [List.getElem?_map, List.getElem?_take, if_pos h] at hat
        rw [Field.line, List.getElem?_append_right (Nat.le_refl _), Nat.sub_self,
          List.getElem?_cons_zero, List.getElem?_eq_getElem h] at hat
        simp only [Option.map_some, Option.some.injEq] at hat
        have hc : name[f.name.length] = ch ':' := eq_of_toUpper_eq (by decide) (hat.symm.trans (by decide))
        exact hname (hc ▸ List.getElem_mem h)
      · rw [Field.line, List.getElem?_append_left h, List.getElem?_eq_getElem h] at hcolon
        have hmem := List.getElem_mem h
        rw [Option.some.inj hcolon] at hmem
        exact (f.name_bytes _ hmem).2 rfl
    rw [Field.line, ← heq, List.take_left] at htake
    refine ⟨htake, fun hnil => ?_⟩
    rw [hnil, List.length_nil] at hlen
    omega
  · rintro ⟨hmap, hvalue⟩
    have heq : f.name.length = name.length := by
      simpa only [List.length_map] using congrArg List.length hmap
    have hpos := List.length_pos_iff.2 hvalue
    refine ⟨⟨by omega, ?_⟩, ?_⟩
    · rw [Field.line, ← heq, List.take_left]
      exact hmap
    · rw [Field.line, ← heq, List.getElem?_append_right (Nat.le_refl _), Nat.sub_self]
      rfl

theorem lineNames_statusLine {name : Bytes} (hs : Sought name) (h : Head) :
    lineNames name h.statusLine = false := by
  obtain ⟨c, name, rfl⟩ := List.exists_cons_of_ne_nil hs.ne_nil
  rw [Bool.eq_false_iff]
  intro hnames
  simp only [lineNames, strncaseeq, Bool.and_eq_true, decide_eq_true_eq, List.take_length] at hnames
  have hhead := congrArg List.head? hnames.1.2
  apply hs.not_status
  show (List.map toUpper (c :: name)).head? = some (toUpper (ch 'H'))
  rw [← hhead]
  rfl

theorem length_joinLines_le (l : Bytes) (ls : List Bytes) :
    l.length + (joinLines ls).length ≤ (joinLines (l :: ls)).length := by
  rw [joinLines_cons]
  split
  · next h => simp [h, joinLines]
  · simp only [List.length_append]
    omega

section

variable {name : Bytes} {h : Head} {f : Field}

theorem findHeaderFrom_nil (name : Bytes) (fuel : ℕ) : findHeaderFrom name fuel [] = none := by
  cases fuel <;> rfl

theorem findHeaderFrom_none (hs : Sought name) {fs : List Field}
    (hfs : ∀ f ∈ fs, strcaseeq f.name name = false) (fuel : ℕ) :
    findHeaderFrom name fuel (joinLines (fs.map Field.line)) = none := by
  induction fs generalizing fuel with
  | nil => exact findHeaderFrom_nil name fuel
  | cons f fs ih =>
    cases fuel with
    | zero => rfl
    | succ fuel =>
      rw [List.map_cons, findHeaderFrom_joinLines name f.line_line, lineNames_field hs.no_colon,
        hfs f (by simp), ih fun g hg => hfs g (by simp [hg])]
      exact ite_self none

/-- The lines that follow a line. -/
def linesAfter (ls : List Bytes) : Bytes := if ls = [] then [] else crlf ++ joinLines ls

theorem findHeaderFrom_some (hs : Sought name) (hvalue : f.value ≠ []) {fs : List Field}
    (hf : fs.find? (fun f => strcaseeq f.name name) = some f) {fuel : ℕ}
    (hfuel : (joinLines (fs.map Field.line)).length < fuel) :
    ∃ ls, findHeaderFrom name fuel (joinLines (fs.map Field.line)) =
      some ((f.value ++ linesAfter ls).dropWhile isHeaderBlank) := by
  induction fs generalizing fuel with
  | nil => cases hf
  | cons g fs ih =>
    obtain ⟨fuel, rfl⟩ : ∃ n, fuel = n + 1 := ⟨fuel - 1, by omega⟩
    rw [List.map_cons] at hfuel
    rw [List.map_cons, findHeaderFrom_joinLines name g.line_line, lineNames_field hs.no_colon]
    rw [List.find?_cons] at hf
    by_cases hg : strcaseeq g.name name = true
    · rw [hg] at hf
      obtain rfl := Option.some.inj hf
      refine ⟨fs.map Field.line, ?_⟩
      have hlen : g.name.length = name.length := by
        have := congrArg List.length (of_decide_eq_true hg)
        simpa only [List.length_map] using this
      have hdrop : (g.line ++ linesAfter (fs.map Field.line)).drop (name.length + 1) =
          g.value ++ linesAfter (fs.map Field.line) := by
        rw [Field.line, List.append_assoc, ← hlen, List.drop_append]
        simp
      rw [if_pos (by simp [hg, hvalue]), joinLines_cons]
      exact congrArg (fun t => some (t.dropWhile isHeaderBlank)) hdrop
    · rw [Bool.not_eq_true] at hg
      rw [hg] at hf
      have hne : fs.map Field.line ≠ [] := by
        intro hnil
        rw [List.map_eq_nil_iff.1 hnil] at hf
        cases hf
      have := length_joinLines_le g.line (fs.map Field.line)
      have hpos := List.length_pos_iff.2 g.line_line.1
      rw [hg, Bool.false_and, if_neg (by decide), if_neg hne]
      exact ih hf (by omega)

theorem findHeader_lines (hs : Sought name) (h : Head) :
    findHeader (joinLines h.lines) name =
      findHeaderFrom name (joinLines h.lines).length (joinLines (h.fields.map Field.line)) := by
  rw [findHeader, Head.lines, findHeaderFrom_joinLines name h.line_statusLine,
    lineNames_statusLine hs, if_neg (by decide)]
  split
  · next hnil =>
    rw [hnil]
    exact (findHeaderFrom_nil name _).symm
  · rfl

/-- A field that a head lacks is not found. -/
theorem findHeader_eq_none (hs : Sought name) (hf : h.field? name = none) :
    findHeader (joinLines h.lines) name = none := by
  rw [findHeader_lines hs]
  refine findHeaderFrom_none hs (fun f hmem => ?_) _
  exact Bool.eq_false_iff.2 (List.find?_eq_none.1 hf f hmem)

/-- The value of a field is found where its blanks end. -/
theorem findHeader_eq_some (hs : Sought name) (hf : h.field? name = some f) {a v b : Bytes}
    (hvalue : f.value = a ++ (v ++ b)) (ha : Blanks a) (hv : ∃ c ∈ v.head?, isBlank c = false) :
    ∃ ls, findHeader (joinLines h.lines) name = some (v ++ (b ++ linesAfter ls)) := by
  obtain ⟨c, hc, hblank⟩ := hv
  obtain ⟨v, rfl⟩ := List.head?_eq_some_iff.1 hc
  have hlen := length_joinLines_le h.statusLine (h.fields.map Field.line)
  have hpos := List.length_pos_iff.2 h.line_statusLine.1
  have hlt : (joinLines (h.fields.map Field.line)).length < (joinLines h.lines).length := by
    rw [Head.lines]
    omega
  obtain ⟨ls, hfind⟩ := findHeaderFrom_some hs (by simp [hvalue]) hf hlt
  refine ⟨ls, ?_⟩
  rw [findHeader_lines hs, hfind, hvalue]
  have hdrop : (a ++ ((c :: v) ++ (b ++ linesAfter ls))).dropWhile isHeaderBlank =
      (c :: v) ++ (b ++ linesAfter ls) := by
    have hskip : ∀ d ∈ a, isHeaderBlank d = true := ha
    have hstop : isHeaderBlank c = false := hblank
    rw [List.dropWhile_append_of_pos hskip, List.cons_append, List.dropWhile_cons, hstop]
    rfl
  rw [← hdrop]
  simp only [List.append_assoc]

end

/-! ## Responses -/

theorem sought_transferEncoding : Sought (lit "Transfer-Encoding") := by
  refine ⟨by decide, by decide, by decide⟩

theorem sought_contentLength : Sought (lit "Content-Length") := by
  refine ⟨by decide, by decide, by decide⟩

section

variable {h : Head} {body : Bytes}

theorem find_terminator (h : Head) (q : Bytes) :
    find (lit "\r\n\r\n") (h.text ++ q) = some (joinLines h.lines).length := by
  have hlines : h.lines ≠ [] := List.cons_ne_nil _ _
  have := find_emptyLine hlines (fun l hl => h.line_of_mem hl) q
  rwa [← List.append_assoc] at this

theorem zero_notMem_joinLines {ls : List Bytes} (hls : ∀ l ∈ ls, Line l) : 0 ∉ joinLines ls := by
  induction ls with
  | nil => simp [joinLines]
  | cons l ls ih =>
    have hl : 0 ∉ l := fun h0 => ne_zero_of_isLineByte ((hls l (by simp)).2 0 h0) rfl
    have hcrlf : 0 ∉ crlf := by decide
    rw [joinLines_cons]
    split
    · simp [hl]
    · simp [hl, hcrlf, ih fun k hk => hls k (by simp [hk])]

theorem atoi_status (h : Head) (rest : Bytes) : atoi ((h.text ++ rest).drop 9) = h.status := by
  obtain ⟨more, hmore⟩ : ∃ more, (h.text ++ rest).drop 9 = h.digits ++ ch ' ' :: more := by
    refine ⟨h.reason ++ (linesAfter (h.fields.map Field.line) ++ (crlf ++ crlf) ++ rest), ?_⟩
    have hnine : (lit "HTTP/1.1 ").length = 9 := by decide
    rw [Head.text, Head.lines, joinLines_cons, Head.statusLine]
    simp only [List.append_assoc]
    rw [List.drop_append, hnine, List.drop_of_length_le (by rw [hnine])]
    simp [linesAfter]
  have hdigits : ∀ c ∈ h.digits, (digitValue 10 c).isSome = true := fun c hc =>
    digitValue_of_isDigit (h.digits_bytes c hc)
  have hne : h.digits ≠ [] := by
    rw [← List.length_pos_iff, h.digits_length]
    decide
  have hlt := leadingValue_lt (by decide : 0 < 10) 0 h.digits
  rw [h.digits_length] at hlt
  rw [atoi, hmore, strtol_digits (Or.inl rfl) hne hdigits]
  · have hmin : min longMax (leadingValue 10 0 h.digits : ℤ) = (leadingValue 10 0 h.digits : ℤ) := by
      unfold longMax
      omega
    rw [hmin, toInt_of_lt (by omega)]
    rfl
  · intro c hc
    obtain rfl : ch ' ' = c := by simpa using hc
    decide

/-- A response whose head is complete is answered with its status and what is made of the rest. -/
theorem readResponse_text (h : Head) (q : Bytes) :
    readResponse (h.text ++ q) = readBody h.status (joinLines h.lines) q := by
  have hnine : (lit "HTTP/1.1 ").length = 9 := by decide
  have hlen : 9 + 3 ≤ (joinLines h.lines).length := by
    have hstatus : 9 + 3 ≤ h.statusLine.length := by
      rw [Head.statusLine, List.length_append, List.length_append, hnine, h.digits_length]
      omega
    have := length_joinLines_le h.statusLine (h.fields.map Field.line)
    rw [Head.lines]
    omega
  have htake : (h.text ++ q).take 7 = lit "HTTP/1." := by
    rw [Head.text, Head.lines, joinLines_cons, Head.statusLine]
    simp only [List.append_assoc]
    rw [List.take_append_of_le_length (by rw [hnine]; decide)]
    decide
  have hlong : ¬(h.text ++ q).length < 12 := by
    simp only [Head.text, List.length_append]
    omega
  have hcut : (h.text ++ q).take (joinLines h.lines).length = joinLines h.lines := by
    rw [Head.text, List.append_assoc, List.take_left]
  have hrest : (h.text ++ q).drop ((joinLines h.lines).length + 4) = q := by
    have : (joinLines h.lines).length + 4 = h.text.length := by simp [Head.text, crlf]
    rw [this, List.drop_left]
  rw [readResponse, if_neg (by rw [htake]; simpa using hlong)]
  simp only [find_terminator, atoi_status, hcut, hrest]
  rw [cstr_eq_self (zero_notMem_joinLines fun l hl => h.line_of_mem hl)]

/-- A response cut inside its head is refused. -/
theorem readResponse_head {p : Bytes} (hp : p <+: h.text) (hne : p ≠ h.text) :
    ∃ m, readResponse p = .failed m := by
  have hnone : find (lit "\r\n\r\n") p = none := by
    cases hfind : find (lit "\r\n\r\n") p with
    | none => rfl
    | some n =>
      obtain ⟨x, hx⟩ := hp
      have hlong := find_append hfind x
      have hall := find_terminator h []
      rw [List.append_nil, ← hx, hlong] at hall
      have hn : n + 4 ≤ p.length := find_length hfind
      have hlen : h.text.length = n + 4 := by
        rw [Option.some.inj hall]
        simp [Head.text, crlf]
      refine absurd (List.IsPrefix.eq_of_length_le ⟨x, hx⟩ ?_) hne
      omega
  rw [readResponse]
  split
  · exact ⟨_, rfl⟩
  · rw [hnone]
    exact ⟨_, rfl⟩

/-- What `readBody` may make of a part `q` of what follows the head: it is refused, or a prefix of the
body is handed on; and the whole body is, where nothing is missing. -/
def ReadsPrefix (status : ℤ) (whole : Prop) (body : Bytes) (outcome : HttpOutcome) : Prop :=
  ((∃ m, outcome = .failed m) ∨ ∃ b, b <+: body ∧ outcome = .answered status b) ∧
    (whole → outcome = .answered status body)

theorem readBody_contentLength {f : Field} {a ds b : Bytes}
    (hnone : h.field? (lit "Transfer-Encoding") = none)
    (hfield : h.field? (lit "Content-Length") = some f) (hvalue : f.value = a ++ (ds ++ b))
    (ha : Blanks a) (hds : Numeral 10 body.length ds) (hb : Blanks b) (hlen : body.length < 2 ^ 63)
    (status : ℤ) {q : Bytes} (hq : q <+: body) :
    ReadsPrefix status (q = body) body (readBody status (joinLines h.lines) q) := by
  have hhead : ∃ c ∈ ds.head?, HttpText.isBlank c = false := by
    obtain ⟨c, ds', rfl⟩ := List.exists_cons_of_ne_nil hds.ne_nil
    refine ⟨c, rfl, ?_⟩
    have := hds.digits c (by simp)
    revert this
    apply forall_byte (P := fun c => (digitValue 10 c).isSome = true →
      HttpText.isBlank c = false)
    decide +kernel
  obtain ⟨ls, hfind⟩ := findHeader_eq_some sought_contentLength hfield hvalue ha hhead
  have hdeclared : strtol 10 (ds ++ (b ++ linesAfter ls)) = body.length := by
    refine numeral_append (Or.inl rfl) hds hlen fun c hc => ?_
    have hc' : HttpText.isBlank c = true ∨ c = ch '\r' := by
      cases b with
      | nil =>
        right
        rw [List.nil_append, linesAfter] at hc
        split at hc
        · simp at hc
        · simpa [crlf, eq_comm] using hc
      | cons d b =>
        left
        obtain rfl : d = c := by simpa using hc
        exact hb d (by simp)
    revert hc'
    apply forall_byte (P := fun c => HttpText.isBlank c = true ∨ c = ch '\r' →
      digitValue 10 c = none ∧ c ≠ ch 'x' ∧ c ≠ ch 'X')
    decide +kernel
  have hle := hq.length_le
  have hread : readBody status (joinLines h.lines) q = .answered status q := by
    simp only [readBody, findHeader_eq_none sought_transferEncoding hnone, hfind, hdeclared]
    rw [if_neg (by decide)]
    by_cases hall : q.length = body.length
    · rw [if_pos ⟨by omega, by omega⟩, List.take_of_length_le (by omega)]
    · rw [if_neg (by omega)]
  refine ⟨Or.inr ⟨q, hq, hread⟩, fun hwhole => ?_⟩
  rw [hread, hwhole]

theorem readBody_chunked {f : Field} {a word b s : Bytes}
    (hfield : h.field? (lit "Transfer-Encoding") = some f) (hvalue : f.value = a ++ (word ++ b))
    (ha : Blanks a) (hword : strcaseeq word (lit "chunked") = true) (hs : Chunks body s)
    (hlen : body.length < 2 ^ 63) (status : ℤ) {q : Bytes} (hq : q <+: s) :
    ReadsPrefix status (q = s) body (readBody status (joinLines h.lines) q) := by
  have hseven : word.length = (lit "chunked").length := by
    have := congrArg List.length (of_decide_eq_true hword)
    simpa only [List.length_map] using this
  have hword7 : (lit "chunked").length = 7 := by decide
  have hhead : ∃ c ∈ word.head?, HttpText.isBlank c = false := by
    have hne : word ≠ [] := List.length_pos_iff.1 (by omega)
    obtain ⟨c, word', rfl⟩ := List.exists_cons_of_ne_nil hne
    refine ⟨c, rfl, ?_⟩
    have hupper : some (toUpper c) = some (ch 'C') := congrArg List.head? (of_decide_eq_true hword)
    have hc := Option.some.inj hupper
    revert hc
    apply forall_byte (P := fun c => toUpper c = ch 'C' → HttpText.isBlank c = false)
    decide +kernel
  obtain ⟨ls, hfind⟩ := findHeader_eq_some sought_transferEncoding hfield hvalue ha hhead
  have hchunked : strncaseeq (word ++ (b ++ linesAfter ls)) (lit "chunked") 7 = true := by
    rw [strncaseeq, List.take_append_of_le_length (by omega), List.take_of_length_le (by omega)]
    exact hword
  have hdecode : DecodesPrefix q.length q.length [] q s body :=
    decodesPrefix hs hlen q.length hq (Nat.le_refl q.length)
  simp only [readBody, hfind, hchunked, if_true]
  obtain ⟨hcut, hfull⟩ := hdecode
  refine ⟨?_, fun hwhole => ?_⟩
  · rcases hcut with hmal | ⟨c, hc, hdec⟩
    · left
      rw [decodeChunked, hmal]
      exact ⟨_, rfl⟩
    · right
      refine ⟨c, hc, ?_⟩
      rw [decodeChunked, hdec]
      rfl
  · rw [decodeChunked, hfull hwhole]
    rfl

/-- A response of which only a prefix `p` arrived is refused, or answered with its status and a
prefix of its body. -/
theorem readResponse_prefix {r p : Bytes} (hr : Framed h body r) (hlen : r.length < 2 ^ 63)
    (hp : p <+: r) : ReadsPrefix h.status (p = r) body (readResponse p) := by
  obtain ⟨s, rfl, hread⟩ : ∃ s, r = h.text ++ s ∧ ∀ q, q <+: s →
      ReadsPrefix h.status (q = s) body (readBody h.status (joinLines h.lines) q) := by
    cases hr with
    | contentLength hnone hfield hvalue ha hds hb =>
      refine ⟨body, rfl, fun q hq => ?_⟩
      rw [List.length_append] at hlen
      exact readBody_contentLength hnone hfield hvalue ha hds hb (by omega) _ hq
    | @chunked f a word b s hfield hvalue ha hword hb hs =>
      refine ⟨s, rfl, fun q hq => ?_⟩
      have := hs.length_le
      rw [List.length_append] at hlen
      exact readBody_chunked hfield hvalue ha hword hs (by omega) _ hq
  rcases List.prefix_or_prefix_of_prefix hp (List.prefix_append h.text s) with hhead | ⟨q, rfl⟩
  · by_cases heq : p = h.text
    · have := hread [] List.nil_prefix
      rw [← readResponse_text, List.append_nil, ← heq] at this
      refine ⟨this.1, fun hwhole => this.2 ?_⟩
      rw [heq] at hwhole
      exact (List.self_eq_append_right.1 hwhole).symm
    · refine ⟨Or.inl (readResponse_head hhead heq), fun hwhole => absurd ?_ heq⟩
      apply hhead.eq_of_length_le
      rw [hwhole, List.length_append]
      exact Nat.le_add_right _ _
  · have := hread q ((List.prefix_append_right_inj h.text).1 hp)
    rw [← readResponse_text] at this
    refine ⟨this.1, fun hwhole => this.2 ?_⟩
    exact List.append_cancel_left hwhole

end

/-! ## Responses that hold an object -/

/-- The string parser reads the text `t` from the body `s` of a string. -/
def ReadBody (t s : Bytes) : Prop :=
  ∀ rest, parseStringBody (s ++ ch '"' :: rest) = some (t, rest)

/-- What is received of a response that holds an object is refused, or gives the status of the response
and the tree of its whole body; and the whole response gives them. -/
theorem readResponse_truncated {h : Head} {body r p : Bytes} {ms : List (Bytes × Value)}
    (hr : Framed h body r) (hbody : Padded (Spells (fun _ s => StringBody s) 64 (.object ms)) body)
    (hlen : r.length < 2 ^ 63) (hp : p <+: r) :
    ∃ v, flJsonParse body = some v ∧
      ((∃ m, readResponse p = .failed m) ∨ ∃ b, readResponse p = .answered h.status b ∧
        (flJsonParse (cstr b) = none ∨ flJsonParse (cstr b) = some v)) ∧
      (p = r → ∃ b, readResponse p = .answered h.status b ∧ flJsonParse (cstr b) = some v) := by
  -- with what is read of each string for its text, the body spells a value
  have hstr : ReadsStrings ReadBody := fun t s h => h
  obtain ⟨a, t, b, ha, ht, hb, rfl⟩ := hbody
  have hzero : 0 ∉ a ++ (t ++ b) := by
    simp [ha.zero_notMem, ht.zero_notMem fun _ _ hs => hs.zero_notMem, hb.zero_notMem]
  obtain ⟨v, hv⟩ : ∃ v, Spells ReadBody 64 v t := ht.choose fun _ _ hs => exists_parseStringBody hs.loose
  have hparse : flJsonParse (a ++ (t ++ b)) = some v :=
    flJsonParse_spells hstr ⟨a, t, b, ha, hv, hb, rfl⟩
  obtain ⟨u, hu⟩ : ∃ u, skipWs (a ++ (t ++ b)) = ch '\x7b' :: u := by
    obtain ⟨members, rfl, -⟩ := ht
    rw [skipWs_append_of_ws ha]
    exact ⟨_, skipWs_cons (by decide) _⟩
  have hcstr : ∀ {s : Bytes}, s <+: a ++ (t ++ b) → cstr s = s := fun hs =>
    cstr_eq_self fun h0 => hzero (hs.subset h0)
  obtain ⟨hcut, hwhole⟩ := readResponse_prefix hr hlen hp
  refine ⟨v, hparse, ?_, fun heq => ⟨_, hwhole heq, ?_⟩⟩
  · rcases hcut with hfailed | ⟨c, hc, hread⟩
    · exact Or.inl hfailed
    · refine Or.inr ⟨c, hread, ?_⟩
      rw [hcstr hc]
      cases hc' : flJsonParse c with
      | none => exact Or.inl rfl
      | some v' =>
        obtain ⟨x, hx⟩ := hc
        rw [← hx] at hu hparse
        exact Or.inr (congrArg some (flJsonParse_extend hu hparse hc'))
  · rw [hcstr (List.prefix_refl _), hparse]

def chunkedHead : Head where
  digits := lit "200"
  reason := lit "OK"
  fields := [{
    name := lit "Transfer-Encoding"
    value := lit " chunked"
    name_ne_nil := by decide
    name_bytes := forall_mem_of_all (by decide)
    value_bytes := forall_mem_of_all (by decide) }]
  digits_length := by decide
  digits_bytes := forall_mem_of_all (by decide)
  reason_bytes := forall_mem_of_all (by decide)

/-- Of an empty object in one chunk, everything but the last six bytes arrives. -/
theorem readResponse_truncated_chunk :
    ∃ v, flJsonParse (lit "\x7b\x7d" ++ []) = some v ∧
      ((∃ m, readResponse (chunkedHead.text ++ lit "2\r\n\x7b\x7d\r") = .failed m) ∨
        ∃ b, readResponse (chunkedHead.text ++ lit "2\r\n\x7b\x7d\r") =
            .answered chunkedHead.status b ∧
          (flJsonParse (cstr b) = none ∨ flJsonParse (cstr b) = some v)) ∧
      (chunkedHead.text ++ lit "2\r\n\x7b\x7d\r" =
          chunkedHead.text ++ (lit "2" ++ (crlf ++ (lit "\x7b\x7d" ++ (crlf ++
            (lit "0" ++ (crlf ++ crlf)))))) →
        ∃ b, readResponse (chunkedHead.text ++ lit "2\r\n\x7b\x7d\r") =
            .answered chunkedHead.status b ∧ flJsonParse (cstr b) = some v) :=
  have hblanks : ∀ c ∈ lit " ", HttpText.isBlank c = true := forall_mem_of_all (by decide)
  have hchunks : Chunks (lit "\x7b\x7d" ++ []) (lit "2" ++ (crlf ++ (lit "\x7b\x7d" ++ (crlf ++
      (lit "0" ++ (crlf ++ crlf)))))) :=
    .cons (by decide) ⟨by decide, forall_mem_of_all (by decide), by decide⟩
      (.last ⟨by decide, forall_mem_of_all (by decide), by decide⟩)
  have hvalue : (chunkedHead.fields.head (by decide)).value = lit " " ++ (lit "chunked" ++ []) := by
    decide
  readResponse_truncated
    (Framed.chunked rfl hvalue hblanks (by decide) (fun _ h => by simp at h) hchunks)
    (show Padded (Spells _ 64 (.object [])) _ from
      ⟨[], _, [], ws_nil, ⟨[], rfl, Or.inl ⟨rfl, ws_nil⟩⟩, ws_nil, by decide⟩)
    (by decide) (by decide)

end FrostlakeOdbc
