import FrostlakeOdbc.ChunkProof

/-!
# Binary cells that are read to their end

A binary cell is decoded piece by piece, and each piece only looks at its own digits. A read comes to
its end with the bytes the text spells, or with a refusal where two digits do not make a byte; but an
odd character at the end is no part of any piece (`readsHex_iff`).
-/

namespace FrostlakeOdbc

open CString

/-! ## A read -/

/-- The first `n` calls of a read that goes on with one buffer after the other. -/
def readCalls (beyond : Behind) (number : UInt16) (stmt : Stmt) (targets : ℕ → Target) (n : ℕ) :
    List (Target × GotData) :=
  readColumn beyond number stmt ((List.range n).map targets)

/-- A read comes to its end: with all the bytes, where the text spells some, and with a refusal where it
spells none. The calls before the end deliver pieces. -/
def ReadsHex (text : Bytes) (calls : ℕ → List (Target × GotData)) : Prop :=
  ∃ n before last, calls n = before ++ [last] ∧
    (∀ call ∈ before, call.2.ret = .successWithInfo truncated) ∧
    ((last.2.ret = .success ∧ SpellsHex text (delivered .binary (calls n))) ∨
      ((∀ value, ¬SpellsHex text value) ∧
        ∃ diag, last.2.ret = .error diag ∧ diag.sqlstate = lit "22018"))

/-- An odd number of characters, of which all but the last are digits. -/
def OddHex (text : Bytes) : Prop :=
  text.length % 2 = 1 ∧ ∀ c ∈ text.dropLast, (hexNibble c).isSome = true

/-! ## The digits at the start of a text -/

theorem SpellsHex.isSome {text value : Bytes} (h : SpellsHex text value) :
    ∀ c ∈ text, (hexNibble c).isSome = true := by
  induction h with
  | nil => simp
  | cons hhigh hlow _ ih =>
    intro c hc
    rcases List.mem_cons.1 hc with rfl | hc
    · rw [hhigh]
      rfl
    · rcases List.mem_cons.1 hc with rfl | hc
      · rw [hlow]
        rfl
      · exact ih c hc

/-- What ends the digits that are paired: the end of the text, an odd character, or two characters
that are not both digits. -/
inductive HexFront : Bytes → Prop where
  | whole {text value : Bytes} (h : SpellsHex text value) : HexFront text
  | odd {digits value : Bytes} (h : SpellsHex digits value) (c : UInt8) : HexFront (digits ++ [c])
  | stuck {digits value : Bytes} (h : SpellsHex digits value) {c d : UInt8}
      (hcd : hexNibble c = none ∨ hexNibble d = none) (rest : Bytes) :
      HexFront (digits ++ c :: d :: rest)

theorem hexFront : ∀ text : Bytes, HexFront text
  | [] => .whole .nil
  | [c] => .odd .nil c
  | c :: d :: rest => by
    cases hc : hexNibble c with
    | none => exact .stuck .nil (.inl hc) rest
    | some high =>
      cases hd : hexNibble d with
      | none => exact .stuck .nil (.inr hd) rest
      | some low =>
        cases hexFront rest with
        | whole h => exact .whole (h.cons hc hd)
        | odd h e => exact .odd (h.cons hc hd) e
        | stuck h hcd more => exact .stuck (h.cons hc hd) hcd more

theorem oddHex_append {digits value : Bytes} (h : SpellsHex digits value) (c : UInt8) :
    OddHex (digits ++ [c]) := by
  constructor
  · rw [List.length_append, h.length_eq]
    simp
  · rw [List.dropLast_concat]
    exact h.isSome

theorem not_oddHex_of_spells {text value : Bytes} (h : SpellsHex text value) : ¬OddHex text := by
  rintro ⟨hodd, -⟩
  rw [h.length_eq] at hodd
  omega

theorem not_spells_of_odd {digits value : Bytes} (h : SpellsHex digits value) (c : UInt8) (v : Bytes) :
    ¬SpellsHex (digits ++ [c]) v := fun hv => not_oddHex_of_spells hv (oddHex_append h c)

theorem not_spells_of_stuck {digits rest v : Bytes} {c d : UInt8}
    (hcd : hexNibble c = none ∨ hexNibble d = none) : ¬SpellsHex (digits ++ c :: d :: rest) v := by
  intro hv
  rcases hcd with h | h
  · have hc := hv.isSome c (by simp)
    rw [h] at hc
    cases hc
  · have hd := hv.isSome d (by simp)
    rw [h] at hd
    cases hd

/-- Behind paired digits there is an even place, so two characters that are no digits are not both
behind the last but one. -/
theorem not_oddHex_of_stuck {digits value rest : Bytes} {c d : UInt8} (h : SpellsHex digits value)
    (hcd : hexNibble c = none ∨ hexNibble d = none) : ¬OddHex (digits ++ c :: d :: rest) := by
  rintro ⟨hodd, hall⟩
  have hrest : rest ≠ [] := by
    rintro rfl
    rw [List.length_append, h.length_eq] at hodd
    simp only [List.length_cons, List.length_nil] at hodd
    omega
  have hdrop : (digits ++ c :: d :: rest).dropLast = digits ++ c :: d :: rest.dropLast := by
    rw [List.dropLast_append_of_ne_nil (List.cons_ne_nil _ _), List.dropLast_cons_cons,
      List.dropLast_cons_of_ne_nil hrest]
  rw [hdrop] at hall
  rcases hcd with hc | hd
  · have := hall c (by simp)
    rw [hc] at this
    cases this
  · have := hall d (by simp)
    rw [hd] at this
    cases this

theorem SpellsHex.decodeHex_stuck {digits value : Bytes} (h : SpellsHex digits value) {c d : UInt8}
    (hcd : hexNibble c = none ∨ hexNibble d = none) (rest : Bytes) {n : ℕ} (hn : value.length < n) :
    decodeHex n (digits ++ c :: d :: rest) = (value, false) := by
  induction h generalizing n with
  | nil =>
    obtain ⟨n, rfl⟩ : ∃ m, n = m + 1 := ⟨n - 1, by rw [List.length_nil] at hn; omega⟩
    rw [List.nil_append]
    unfold decodeHex
    split
    · next high low hhigh hlow =>
      rcases hcd with hc | hd
      · rw [hc] at hhigh
        cases hhigh
      · rw [hd] at hlow
        cases hlow
    · rfl
  | cons hhigh hlow _ ih =>
    rw [List.length_cons] at hn
    obtain ⟨n, rfl⟩ : ∃ m, n = m + 1 := ⟨n - 1, by omega⟩
    rw [List.cons_append, List.cons_append]
    unfold decodeHex
    rw [hhigh, hlow]
    simp only [ih (Nat.lt_of_succ_lt_succ hn)]

/-! ## The calls of a read -/

/-- A read of a binary cell from its start, in buffers of any lengths but none. -/
structure ReadsBinary (stmt : Stmt) (number : UInt16) (column : Column) (cell : Cell)
    (targets : ℕ → Target) : Prop where
  onCell : OnCell stmt number column cell
  notNull : cell.isNull = false
  binary : column.sqlType.isBinary = true
  fresh : stmt.getdataCol ≠ number.toNat ∨ stmt.getdataOffset = 0
  buffers : ∀ n, (targets n).cTypeFor column = .binary ∧ (targets n).probes = false

variable {beyond : Behind} {stmt : Stmt} {number : UInt16} {column : Column} {cell : Cell}
  {targets : ℕ → Target}

section

variable (beyond number stmt targets)

theorem map_fst_readColumn (l : List Target) :
    (readColumn beyond number stmt l).map Prod.fst = l := by
  induction l generalizing stmt with
  | nil => rfl
  | cons target l ih =>
    unfold readColumn
    rw [List.map_cons, ih]

theorem take_readColumn (l : List Target) (n : ℕ) :
    (readColumn beyond number stmt l).take n = readColumn beyond number stmt (l.take n) := by
  induction l generalizing stmt n with
  | nil =>
    rw [List.take_nil]
    exact List.take_nil
  | cons target l ih =>
    cases n with
    | zero => rfl
    | succ n =>
      rw [List.take_succ_cons]
      unfold readColumn
      rw [List.take_succ_cons, ih]

theorem length_readCalls (n : ℕ) : (readCalls beyond number stmt targets n).length = n := by
  unfold readCalls
  rw [← List.length_map Prod.fst, map_fst_readColumn, List.length_map, List.length_range]

theorem take_readCalls {n m : ℕ} (h : n ≤ m) :
    (readCalls beyond number stmt targets m).take n = readCalls beyond number stmt targets n := by
  unfold readCalls
  rw [take_readColumn, ← List.map_take, List.take_range, Nat.min_eq_left h]

end

/-- The calls up to one of them, whatever comes after. -/
theorem readCalls_of_append {m : ℕ} {before later : List (Target × GotData)} {last : Target × GotData}
    (h : readCalls beyond number stmt targets m = before ++ last :: later) :
    readCalls beyond number stmt targets (before.length + 1) = before ++ [last] := by
  have hm : m = before.length + (later.length + 1) := by
    have := congrArg List.length h
    rw [length_readCalls, List.length_append, List.length_cons] at this
    exact this
  rw [← take_readCalls beyond stmt number targets (by omega : before.length + 1 ≤ m), h]
  rw [List.take_append, List.take_of_length_le (Nat.le_succ _), Nat.add_sub_cancel_left]
  rfl

section

variable {n n' : ℕ} {before before' : List (Target × GotData)} {last last' : Target × GotData}

/-- A read does not go on behind its end. -/
theorem le_of_ended (h : readCalls beyond number stmt targets n = before ++ [last])
    (h' : readCalls beyond number stmt targets n' = before' ++ [last'])
    (hbefore' : ∀ call ∈ before', call.2.ret = .successWithInfo truncated)
    (hlast : last.2.ret ≠ .successWithInfo truncated) : n' ≤ n := by
  by_contra hlt
  rw [not_le] at hlt
  have hlength := length_readCalls beyond stmt number targets n'
  rw [h', List.length_append, List.length_singleton] at hlength
  have hmem : last ∈ before'.take n := by
    have htake := take_readCalls beyond stmt number targets hlt.le
    rw [h', h, List.take_append_of_le_length (by omega)] at htake
    rw [htake]
    exact List.mem_append_right _ (List.mem_singleton_self last)
  exact hlast (hbefore' last (List.mem_of_mem_take hmem))

theorem last_unique (h : readCalls beyond number stmt targets n = before ++ [last])
    (h' : readCalls beyond number stmt targets n' = before' ++ [last'])
    (hbefore : ∀ call ∈ before, call.2.ret = .successWithInfo truncated)
    (hbefore' : ∀ call ∈ before', call.2.ret = .successWithInfo truncated)
    (hlast : last.2.ret ≠ .successWithInfo truncated)
    (hlast' : last'.2.ret ≠ .successWithInfo truncated) : last = last' := by
  have hn : n = n' :=
    le_antisymm (le_of_ended h' h hbefore hlast') (le_of_ended h h' hbefore' hlast)
  subst hn
  rw [h] at h'
  exact List.singleton_inj.1 (List.append_inj' h' rfl).2

end

/-- A value that the text holds is delivered. -/
theorem ReadsBinary.exists_delivered (beyond : Behind)
    (h : ReadsBinary stmt number column cell targets) {value : Bytes}
    (hholds : HoldsValue column .binary (cell.text.getD []) value) :
    ∃ n before last, readCalls beyond number stmt targets n = before ++ [last] ∧
      (∀ call ∈ before, call.2.ret = .successWithInfo truncated) ∧ last.2.ret = .success ∧
      delivered .binary (readCalls beyond number stmt targets n) = value := by
  have hoffset := readOffset_fresh h.fresh
  have hadmits : ∀ target ∈ (List.range (max 1 value.length)).map targets,
      Admits column .binary target := by
    intro target htarget
    obtain ⟨n, -, rfl⟩ := List.mem_map.1 htarget
    exact ⟨(h.buffers n).1, fun hchar => by cases hchar⟩
  have hreads := readsOut_readColumn beyond h.onCell h.notNull (.inr rfl) hholds hadmits
    (by rw [hoffset]; exact Nat.zero_le _)
  rw [hoffset, List.drop_zero] at hreads
  obtain ⟨before, after, hcalls, hassembles⟩ := hreads.exists_reassembles
  have hprobe : ∀ call ∈ before, call.1.probes = false := by
    intro call hcall
    have hmem : call.1 ∈ (List.range (max 1 value.length)).map targets := by
      rw [← map_fst_readColumn beyond stmt number ((List.range (max 1 value.length)).map targets),
        hcalls]
      exact List.mem_map_of_mem (List.mem_append_left _ hcall)
    obtain ⟨n, -, hn⟩ := List.mem_map.1 hmem
    rw [← hn]
    exact (h.buffers n).2
  -- there are fewer pieces than bytes, so one of the calls is the last
  have hlength := length_readCalls beyond stmt number targets (max 1 value.length)
  have hcount := hassembles.count
  rw [List.filter_eq_self.2 fun call hcall => by rw [hprobe call hcall]; rfl] at hcount
  unfold readCalls at hlength
  rw [hcalls, List.length_append] at hlength
  obtain ⟨last, later, rfl⟩ := List.exists_cons_of_ne_nil
    (List.ne_nil_of_length_pos (by omega : 0 < after.length))
  have hends : readCalls beyond number stmt targets (before.length + 1) = _ := readCalls_of_append hcalls
  obtain ⟨-, hret, -, ⟨piece, hpiece, hvalue⟩, -⟩ := hassembles.last last later rfl
  refine ⟨_, before, last, hends, fun call hcall => ?_, hret, ?_⟩
  · obtain ⟨early, late, rfl⟩ := List.append_of_mem hcall
    have hpieces := (hassembles.before_last early call late rfl).2
    rw [hprobe call hcall, if_neg Bool.false_ne_true] at hpieces
    exact hpieces.1
  · rw [hends]
    unfold delivered at hvalue ⊢
    rw [List.flatMap_append, List.flatMap_singleton, hpiece.piece_eq]
    exact hvalue

/-- Before the first two characters that do not make a byte, pieces are delivered; a call that comes to
them is refused. -/
theorem exists_refused (beyond : Behind) (hcell : OnCell stmt number column cell) (hnull : cell.isNull = false)
    (hbinary : column.sqlType.isBinary = true) {digits value rest : Bytes}
    (hdigits : SpellsHex digits value) {c d : UInt8}
    (hcd : hexNibble c = none ∨ hexNibble d = none)
    (htext : cell.text.getD [] = digits ++ c :: d :: rest) {l : List Target}
    (hl : ∀ target ∈ l, target.cTypeFor column = .binary ∧ target.probes = false)
    (hstart : readOffset stmt number ≤ value.length)
    (hlong : value.length < readOffset stmt number + l.length) :
    ∃ before last later, readColumn beyond number stmt l = before ++ last :: later ∧
      (∀ call ∈ before, call.2.ret = .successWithInfo truncated) ∧ last.2.ret = .error invalidHex := by
  induction l generalizing stmt with
  | nil =>
    rw [List.length_nil] at hlong
    omega
  | cons target l ih =>
    obtain ⟨hcType, hprobe⟩ := hl target List.mem_cons_self
    have hgot := sqlGetData_onCell beyond hcell target
    have hlength := hdigits.length_eq
    have htotal : value.length < (cell.text.getD []).length / 2 := by
      rw [htext, List.length_append, List.length_cons, List.length_cons]
      omega
    have hdrop : (cell.text.getD []).drop (readOffset stmt number * 2) =
        digits.drop (readOffset stmt number * 2) ++ c :: d :: rest := by
      rw [htext]
      exact List.drop_append_of_le_length (by omega)
    have hspells := hdigits.drop (readOffset stmt number)
    rw [convertCell_eq _ hnull (.inr rfl) hcType] at hgot
    have hconvert : convertText (beyond stmt.currentRow (number.toNat - 1)) column.sqlType
        (cell.text.getD []) target .binary (some (readOffset stmt number)) =
        convertHex (cell.text.getD []) target (some (readOffset stmt number)) := if_pos hbinary
    rw [hconvert] at hgot
    have htakes : 0 < target.takes ((cell.text.getD []).length / 2 - readOffset stmt number) := by
      have hpos := bufferLength_pos hprobe
      unfold Target.takes
      split <;> omega
    by_cases hcomes : target.takes ((cell.text.getD []).length / 2 - readOffset stmt number) ≤
        (value.drop (readOffset stmt number)).length
    · have hdecode := hspells.decodeHex_eq hcomes (c :: d :: rest)
      rw [← hdrop] at hdecode
      rw [convertHex_go (by omega) hprobe hdecode, if_pos rfl] at hgot
      rw [List.length_drop] at hcomes
      have hmore : target.takes ((cell.text.getD []).length / 2 - readOffset stmt number) <
          (cell.text.getD []).length / 2 - readOffset stmt number := by omega
      simp only [deliver, if_pos hmore] at hgot
      obtain ⟨before, last, later, hcalls, hbefore, hlast⟩ := ih
        (hcell.afterRead (readOffset stmt number +
          target.takes ((cell.text.getD []).length / 2 - readOffset stmt number)))
        (fun target h => hl target (List.mem_cons_of_mem _ h))
        (by rw [readOffset_afterRead]; omega)
        (by rw [readOffset_afterRead]; rw [List.length_cons] at hlong; omega)
      refine ⟨(target, (sqlGetData beyond stmt number target).1) :: before, last, later, ?_, ?_, hlast⟩
      · unfold readColumn
        rw [hgot]
        exact congrArg _ hcalls
      · intro call hcall
        rcases List.mem_cons.1 hcall with rfl | hcall
        · rw [hgot]
        · exact hbefore call hcall
    · have hdecode := hspells.decodeHex_stuck hcd rest (not_le.1 hcomes)
      rw [← hdrop] at hdecode
      rw [convertHex_go (by omega) hprobe hdecode, if_neg Bool.false_ne_true] at hgot
      refine ⟨[], (target, (sqlGetData beyond stmt number target).1), _, rfl, ?_, ?_⟩
      · intro call hcall
        cases hcall
      · rw [hgot]

/-! ## What a read comes to -/

/-- The end of a read that delivers everything is no refusal. -/
theorem ReadsHex.of_delivered {text : Bytes} {n : ℕ} {before : List (Target × GotData)}
    {last : Target × GotData} (h : ReadsHex text (readCalls beyond number stmt targets))
    (hends : readCalls beyond number stmt targets n = before ++ [last])
    (hbefore : ∀ call ∈ before, call.2.ret = .successWithInfo truncated)
    (hret : last.2.ret = .success) : ∃ value, SpellsHex text value := by
  obtain ⟨n', before', last', hends', hbefore', hlast'⟩ := h
  rcases hlast' with ⟨-, hspells⟩ | ⟨-, diag, hdiag, -⟩
  · exact ⟨_, hspells⟩
  · have hsame := last_unique hends hends' hbefore hbefore' (by rw [hret]; simp) (by rw [hdiag]; simp)
    rw [hsame, hdiag] at hret
    cases hret

/-- A binary cell is delivered if it is an even number of hexadecimal digits, and refused if it is
not, unless it is an odd number of characters of which all but the last are digits. -/
theorem readsHex_iff (h : ReadsBinary stmt number column cell targets) :
    ReadsHex (cell.text.getD []) (readCalls beyond number stmt targets) ↔
      ¬OddHex (cell.text.getD []) := by
  have hholds : ∀ {digits value} (rest : Bytes), SpellsHex digits value → rest.length ≤ 1 →
      cell.text.getD [] = digits ++ rest → HoldsValue column .binary (cell.text.getD []) value := by
    intro digits value rest hdigits hrest htext
    unfold HoldsValue
    rw [if_pos ⟨rfl, h.binary⟩]
    exact ⟨digits, rest, hdigits, hrest, htext⟩
  generalize htext : cell.text.getD [] = text
  rw [htext] at hholds
  cases hexFront text with
  | @whole _ value hspells =>
    refine iff_of_true ?_ (not_oddHex_of_spells hspells)
    obtain ⟨n, before, last, hends, hbefore, hret, hvalue⟩ := h.exists_delivered beyond
      (htext ▸ hholds [] hspells (Nat.zero_le 1) (List.append_nil text).symm)
    refine ⟨n, before, last, hends, hbefore, .inl ⟨hret, ?_⟩⟩
    rw [hvalue]
    exact hspells
  | @odd digits value hdigits c =>
    refine iff_of_false (fun hreads => ?_) (not_not.2 (oddHex_append hdigits c))
    obtain ⟨n, before, last, hends, hbefore, hret, -⟩ := h.exists_delivered beyond
      (htext ▸ hholds [c] hdigits le_rfl rfl)
    obtain ⟨value, hspells⟩ := hreads.of_delivered hends hbefore hret
    exact not_spells_of_odd hdigits c value hspells
  | @stuck digits value hdigits c d hcd rest =>
    refine iff_of_true ?_ (not_oddHex_of_stuck hdigits hcd)
    have hoffset := readOffset_fresh h.fresh
    have hbuffers : ∀ target ∈ (List.range (value.length + 1)).map targets,
        target.cTypeFor column = .binary ∧ target.probes = false := by
      intro target htarget
      obtain ⟨n, -, rfl⟩ := List.mem_map.1 htarget
      exact h.buffers n
    obtain ⟨before, last, later, hcalls, hbefore, hret⟩ := exists_refused beyond h.onCell h.notNull
      h.binary hdigits hcd htext hbuffers (by rw [hoffset]; exact Nat.zero_le _)
      (by rw [hoffset, List.length_map, List.length_range]; omega)
    refine ⟨_, before, last, readCalls_of_append hcalls, hbefore, .inr ⟨fun v => ?_, _, hret, rfl⟩⟩
    exact not_spells_of_stuck hcd

/-- A statement on a row with the one cell `text`, in a `BINARY` column. -/
def binaryStmt (text : String) : Stmt :=
  { snowStmt with
    synth := some
      { columns := [⟨lit "B", none, .varbinary, 0, 0, 8⟩]
        columnCount := 1
        cells := [⟨some (lit text), 's', false⟩]
        rowCount := 1 } }

theorem readsBinary_binaryStmt (text : String) (length : ℕ) :
    ReadsBinary (binaryStmt text) 1 ⟨lit "B", none, .varbinary, 0, 0, 8⟩
      ⟨some (lit text), 's', false⟩ fun _ => ⟨.binary, true, length + 1, true⟩ where
  onCell := ⟨_, rfl, le_rfl, Int.zero_lt_one, rfl, rfl⟩
  notNull := rfl
  binary := rfl
  fresh := .inr rfl
  buffers _ := ⟨rfl, by simp [Target.probes]⟩

/-- Two bytes, one at a time. -/
theorem readsHex_iff_two :
    ReadsHex (lit "CAfe")
        (readCalls (fun _ _ => []) 1 (binaryStmt "CAfe") fun _ => ⟨.binary, true, 1, true⟩) ↔
      ¬OddHex (lit "CAfe") :=
  readsHex_iff (readsBinary_binaryStmt "CAfe" 0)

/-- Of three digits the first two are delivered, as if they were the whole value. -/
theorem not_readsHex_odd :
    ¬ReadsHex (lit "ABC")
      (readCalls (fun _ _ => []) 1 (binaryStmt "ABC") fun _ => ⟨.binary, true, 8, true⟩) := by
  intro h
  have hends : readCalls (fun _ _ => []) 1 (binaryStmt "ABC") (fun _ => ⟨.binary, true, 8, true⟩) 1 =
      [] ++ [(_, _)] := rfl
  obtain ⟨value, hspells⟩ := h.of_delivered hends (fun _ hcall => by cases hcall) rfl
  have hlength := hspells.length_eq
  have hthree : (lit "ABC").length = 3 := by decide
  omega

end FrostlakeOdbc
