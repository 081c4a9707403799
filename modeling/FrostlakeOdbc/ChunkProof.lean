import FrostlakeOdbc.Results
import Mathlib.Data.List.GetD

/-!
# Values read in pieces

`SQLGetData` hands a character or binary value over in as many pieces as the caller's buffers make
it. `ReadsOut` says what the calls answer while `rest` of the value is still to come; one call
against it is `exists_deliver`, and the run of the calls follows by induction.
-/

namespace FrostlakeOdbc

open CString Utf8

/-! ## Reading one column -/

/-- A call that asks for the length of a value only. -/
def Target.probes (target : Target) : Bool := !target.buffer || target.bufferLength ≤ 0

/-- What stands behind a piece in a buffer. -/
def terminator (cType : CType) : Bytes := if cType = .char then [0] else []

/-- The C type a column is read as. -/
def Target.cTypeFor (target : Target) (column : Column) : CType :=
  if target.cType = .default then defaultCType column.sqlType else target.cType

/-- The cell text of a value: a binary column holds it as `append_binary_literal` writes it. -/
def cellText (column : Column) (cType : CType) (value : Bytes) : Bytes :=
  if cType = .binary ∧ column.sqlType.isBinary then value.flatMap hexByte else value

/-- A statement on a row whose cell in a column is `cell`. -/
structure OnCell (stmt : Stmt) (number : UInt16) (column : Column) (cell : Cell) : Prop where
  exists_set : ∃ set, flStmtCurrentSet stmt = some set ∧ 0 ≤ stmt.currentRow ∧
    stmt.currentRow < set.rowCount ∧ columnAt set number = some column ∧
    set.cellAt stmt.currentRow (number.toNat - 1) = some cell

/-- The offset a read of a column starts from. -/
def readOffset (stmt : Stmt) (number : UInt16) : ℕ :=
  if stmt.getdataCol ≠ number.toNat then 0 else stmt.getdataOffset

/-- `SQLGetData` of one column, once for each target. -/
def readColumn (beyond : Behind) (number : UInt16) : Stmt → List Target → List (Target × GotData)
  | _, [] => []
  | stmt, target :: targets =>
      let (got, stmt) := sqlGetData beyond stmt number target
      (target, got) :: readColumn beyond number stmt targets

/-- The piece of a value that a call delivers. -/
def GotData.piece (cType : CType) (got : GotData) : Bytes :=
  match got.stored with
  | some (.bytes content) => content.take (content.length - (terminator cType).length)
  | _ => []

/-- The pieces some calls deliver, put together. -/
def delivered (cType : CType) (calls : List (Target × GotData)) : Bytes :=
  calls.flatMap fun call => call.2.piece cType

/-- What is written to the indicator of a call. -/
def Target.reports (target : Target) (n : ℕ) : Option ℤ :=
  if target.strLenOrInd then some n else none

/-- A call that writes `piece` to its buffer, which it fits in. -/
structure Delivers (cType : CType) (target : Target) (got : GotData) (piece : Bytes) : Prop where
  stored : got.stored = some (.bytes (piece ++ terminator cType))
  fits : ((piece ++ terminator cType).length : ℤ) ≤ target.bufferLength

theorem Delivers.piece_eq {cType : CType} {target : Target} {got : GotData} {piece : Bytes}
    (h : Delivers cType target got piece) : got.piece cType = piece := by
  unfold GotData.piece
  rw [h.stored]
  simp

/-! ## The calls of a chunked read -/

/-- The calls that read a value of which `rest` is still to come. -/
inductive ReadsOut (cType : CType) : Bytes → List (Target × GotData) → Prop where
  | nil {rest : Bytes} : ReadsOut cType rest []
  | probe {rest : Bytes} {target : Target} {got : GotData} {calls : List (Target × GotData)}
      (hprobe : target.probes = true) (hret : got.ret = .success) (hstored : got.stored = none)
      (hind : got.indicator = target.reports rest.length) (hcalls : ReadsOut cType rest calls) :
      ReadsOut cType rest ((target, got) :: calls)
  | piece {piece rest : Bytes} {target : Target} {got : GotData} {calls : List (Target × GotData)}
      (hprobe : target.probes = false) (hpiece : piece ≠ []) (hrest : rest ≠ [])
      (hret : got.ret = .successWithInfo truncated) (hstored : Delivers cType target got piece)
      (hind : got.indicator = target.reports (piece ++ rest).length)
      (hwhole : cType = .char → 5 ≤ target.bufferLength → WellFormed (piece ++ rest) →
        WellFormed piece ∧ WellFormed rest)
      (hcalls : ReadsOut cType rest calls) : ReadsOut cType (piece ++ rest) ((target, got) :: calls)
  | last {rest : Bytes} {target : Target} {got : GotData} {calls : List (Target × GotData)}
      (hprobe : target.probes = false) (hret : got.ret = .success)
      (hstored : Delivers cType target got rest)
      (hind : got.indicator = target.reports rest.length)
      (hcalls : ∀ call ∈ calls, call.2.ret = .noData ∧ call.2.stored = none) :
      ReadsOut cType rest ((target, got) :: calls)

/-- What the calls that read a value answer: those in `before` leave some of it to come, and the one
behind them delivers the rest. -/
structure Reassembles (cType : CType) (value : Bytes) (before after : List (Target × GotData)) :
    Prop where
  /-- A call before the last one asks for the length or delivers a piece, and tells how much there
  was to come. -/
  before_last : ∀ early call late, before = early ++ call :: late →
    call.2.indicator = call.1.reports (value.length - (delivered cType early).length) ∧
    if call.1.probes then call.2.ret = .success
    else call.2.ret = .successWithInfo truncated ∧
      ∃ piece, piece ≠ [] ∧ Delivers cType call.1 call.2 piece
  /-- The pieces are a start of the value. -/
  partial_value : delivered cType before <+: value
  /-- There are no more calls than bytes. -/
  count : (before.filter fun call => !call.1.probes).length + 1 ≤ max 1 value.length
  /-- The last call delivers what is left, and nothing is read after it. -/
  last : ∀ call later, after = call :: later →
    call.1.probes = false ∧ call.2.ret = .success ∧
    call.2.indicator = call.1.reports (value.length - (delivered cType before).length) ∧
    (∃ piece, Delivers cType call.1 call.2 piece ∧ delivered cType before ++ piece = value) ∧
    ∀ call ∈ later, call.2.ret = .noData
  /-- Buffers of 5 bytes do not take a character apart. -/
  whole : cType = .char → WellFormed value →
    (∀ call ∈ before ++ after, call.1.probes = false → 5 ≤ call.1.bufferLength) →
    ∀ call ∈ before ++ after, WellFormed (call.2.piece cType)

@[simp] theorem delivered_nil (cType : CType) : delivered cType [] = [] := rfl

@[simp] theorem delivered_cons (cType : CType) (call : Target × GotData)
    (calls : List (Target × GotData)) :
    delivered cType (call :: calls) = call.2.piece cType ++ delivered cType calls := rfl

namespace Reassembles

variable {cType : CType} {value : Bytes} {before after : List (Target × GotData)} {target : Target}
  {got : GotData}

theorem nil : Reassembles cType value [] [] where
  before_last early call late h := by simp at h
  partial_value := List.nil_prefix
  count := le_max_left _ _
  last call later h := by simp at h
  whole _ _ _ call h := by simp at h

/-- The calls behind the first one, if it delivers `piece` of the value or asks for its length. -/
theorem cons {piece : Bytes} (hpiece : got.piece cType = piece)
    (hfirst : got.indicator = target.reports (piece ++ value).length ∧
      if target.probes then got.ret = .success
      else got.ret = .successWithInfo truncated ∧ piece ≠ [] ∧ Delivers cType target got piece)
    (hleft : target.probes = false → value ≠ [])
    (hwhole : cType = .char → (target.probes = false → 5 ≤ target.bufferLength) →
      WellFormed (piece ++ value) → WellFormed piece ∧ WellFormed value)
    (h : Reassembles cType value before after) :
    Reassembles cType (piece ++ value) ((target, got) :: before) after where
  before_last := by
    intro early call late hsplit
    cases early with
    | nil =>
      obtain ⟨rfl, rfl⟩ := List.cons.inj hsplit
      refine ⟨by simpa using hfirst.1, ?_⟩
      by_cases hprobe : target.probes = true
      · simpa [hprobe] using hfirst.2
      · simp only [hprobe] at hfirst ⊢
        exact ⟨hfirst.2.1, piece, hfirst.2.2⟩
    | cons first early =>
      obtain ⟨rfl, rfl⟩ := List.cons.inj hsplit
      obtain ⟨hind, hret⟩ := h.before_last early call late rfl
      refine ⟨?_, hret⟩
      rw [hind, delivered_cons, hpiece, List.length_append, List.length_append,
        Nat.add_sub_add_left]
  partial_value := by
    rw [delivered_cons, hpiece]
    exact (List.prefix_append_right_inj piece).2 h.partial_value
  count := by
    have hcount := h.count
    by_cases hprobe : target.probes = true
    · simp only [List.filter_cons, hprobe, Bool.not_true, Bool.false_eq_true, if_false,
        List.length_append]
      omega
    · rw [Bool.not_eq_true] at hprobe
      have hne := List.length_pos_of_ne_nil (hleft hprobe)
      simp only [hprobe, Bool.false_eq_true, if_false] at hfirst
      have hpos := List.length_pos_of_ne_nil hfirst.2.2.1
      simp only [List.filter_cons, hprobe, Bool.not_false, if_true, List.length_cons,
        List.length_append]
      omega
  last := by
    intro call later hsplit
    obtain ⟨hprobe, hret, hind, ⟨rest, hrest, hall⟩, hlater⟩ := h.last call later hsplit
    refine ⟨hprobe, hret, ?_, ⟨rest, hrest, ?_⟩, hlater⟩
    · rw [hind, delivered_cons, hpiece, List.length_append, List.length_append,
        Nat.add_sub_add_left]
    · rw [delivered_cons, hpiece, List.append_assoc, hall]
  whole := by
    intro hchar hwell hbuffers call hcall
    obtain ⟨hthis, hrest⟩ := hwhole hchar (hbuffers (target, got) (by simp)) hwell
    rw [List.cons_append, List.mem_cons] at hcall
    rcases hcall with rfl | hcall
    · exact hpiece ▸ hthis
    · exact h.whole hchar hrest (fun call hcall => hbuffers call (by simp [hcall])) call hcall

theorem single (hprobe : target.probes = false) (hret : got.ret = .success)
    (hstored : Delivers cType target got value)
    (hind : got.indicator = target.reports value.length)
    (hafter : ∀ call ∈ after, call.2.ret = .noData ∧ call.2.stored = none) :
    Reassembles cType value [] ((target, got) :: after) where
  before_last early call late h := by simp at h
  partial_value := List.nil_prefix
  count := le_max_left _ _
  last := by
    intro call later hsplit
    obtain ⟨rfl, rfl⟩ := List.cons.inj hsplit
    exact ⟨hprobe, hret, by simpa using hind, ⟨value, hstored, rfl⟩, fun call hcall =>
      (hafter call hcall).1⟩
  whole := by
    intro _ hwell _ call hcall
    rw [List.nil_append, List.mem_cons] at hcall
    rcases hcall with rfl | hcall
    · rw [hstored.piece_eq]
      exact hwell
    · unfold GotData.piece
      rw [(hafter call hcall).2]
      exact WellFormed.nil

end Reassembles

theorem ReadsOut.exists_reassembles {cType : CType} {value : Bytes}
    {calls : List (Target × GotData)} (h : ReadsOut cType value calls) :
    ∃ before after, calls = before ++ after ∧ Reassembles cType value before after := by
  induction h with
  | nil => exact ⟨[], [], rfl, Reassembles.nil⟩
  | @probe rest target got calls hprobe hret hstored hind _ ih =>
    obtain ⟨before, after, rfl, h⟩ := ih
    have hpiece : got.piece cType = [] := by
      unfold GotData.piece
      rw [hstored]
    refine ⟨(target, got) :: before, after, rfl, ?_⟩
    refine Reassembles.cons hpiece ⟨hind, by rw [if_pos hprobe, hret]⟩ ?_ ?_ h
    · intro hnot
      rw [hprobe] at hnot
      cases hnot
    · intro _ _ hwell
      exact ⟨WellFormed.nil, hwell⟩
  | @piece piece rest target got calls hprobe hpiece hrest hret hstored hind hwhole _ ih =>
    obtain ⟨before, after, rfl, h⟩ := ih
    refine ⟨(target, got) :: before, after, rfl, ?_⟩
    refine Reassembles.cons hstored.piece_eq ⟨hind, ?_⟩ (fun _ => hrest) ?_ h
    · rw [if_neg (by simp [hprobe])]
      exact ⟨hret, hpiece, hstored⟩
    · exact fun hchar hbuffer hwell => hwhole hchar (hbuffer hprobe) hwell
  | last hprobe hret hstored hind hcalls =>
    exact ⟨[], _, rfl, Reassembles.single hprobe hret hstored hind hcalls⟩

/-! ## Where a piece is cut -/

theorem backUp_le (s : Bytes) (n : ℕ) : backUp s n ≤ n := by
  induction n with
  | zero => exact le_rfl
  | succ n ih =>
    unfold backUp
    split
    · exact Nat.le_succ_of_le ih
    · exact le_rfl

theorem cutWhole_le (s : Bytes) (n : ℕ) : cutWhole s n ≤ n := by
  unfold cutWhole
  by_cases h : 0 < backUp s n
  · exact le_of_eq_of_le (if_pos h) (backUp_le s n)
  · exact le_of_eq (if_neg h)

theorem cutWhole_pos {s : Bytes} {n : ℕ} (h : 0 < n) : 0 < cutWhole s n := by
  unfold cutWhole
  by_cases hback : 0 < backUp s n
  · exact lt_of_lt_of_eq hback (if_pos hback).symm
  · exact lt_of_lt_of_eq h (if_neg hback).symm

/-- Backing up goes no further than to a lead byte. -/
theorem backUp_append {s : Bytes} {lead : UInt8} {t : Bytes} (hlead : isContinuation lead = false)
    (n : ℕ) : backUp (s ++ lead :: t) (s.length + n) = s.length + backUp (lead :: t) n := by
  induction n with
  | zero =>
    cases s with
    | nil => rfl
    | cons c s =>
      show backUp _ (s.length + 1) = s.length + 1
      unfold backUp
      rw [if_neg]
      simp [hlead]
  | succ n ih =>
    have hget : (s ++ lead :: t).getD (s.length + (n + 1)) 0 = (lead :: t).getD (n + 1) 0 := by
      rw [List.getD_append_right _ _ _ _ (Nat.le_add_right _ _), Nat.add_sub_cancel_left]
    show backUp _ (s.length + n + 1) = s.length + backUp (lead :: t) (n + 1)
    unfold backUp
    rw [Nat.add_assoc, hget, ih]
    by_cases hc : isContinuation ((lead :: t).getD (n + 1) 0) = true
    · rw [if_pos hc, if_pos hc]
    · rw [if_neg hc, if_neg hc]

/-- Backing up within a block goes to its lead byte. -/
theorem backUp_block {lead : UInt8} {tail t : Bytes} (htail : ∀ b ∈ tail, isContinuation b = true)
    {n : ℕ} (hn : n ≤ tail.length) : backUp (lead :: tail ++ t) n = 0 := by
  induction n with
  | zero => rfl
  | succ n ih =>
    have hmem : (lead :: tail ++ t).getD (n + 1) 0 ∈ tail := by
      rw [List.cons_append, List.getD_cons_succ, List.getD_append _ _ _ _ hn,
        List.getD_eq_getElem _ _ hn]
      exact List.getElem_mem hn
    unfold backUp
    rw [if_pos (htail _ hmem)]
    exact ih (Nat.le_of_succ_le hn)

/-- In a well-formed text, backing up stops between two characters and within 3 bytes. -/
theorem backUp_wellFormed {s : Bytes} (h : WellFormed s) {n : ℕ} (hn : n < s.length) :
    WellFormed (s.take (backUp s n)) ∧ WellFormed (s.drop (backUp s n)) ∧ n ≤ backUp s n + 3 := by
  induction hlen : s.length using Nat.strong_induction_on generalizing s n with
  | _ len ih =>
    rcases h.cases with rfl | ⟨lead, tail, rest, rfl, htail, hsize, hblock, hrest⟩
    · simp at hn
    · by_cases hwithin : n ≤ tail.length
      · rw [backUp_block htail hwithin]
        exact ⟨WellFormed.nil, h, by omega⟩
      · -- the cut lies behind the block, whose successor starts with a lead byte
        obtain ⟨m, rfl⟩ := Nat.exists_eq_add_of_lt (Nat.lt_of_not_le hwithin)
        cases rest with
        | nil =>
          rw [List.append_nil, List.length_cons] at hn
          omega
        | cons c rest =>
          have hback : backUp (lead :: tail ++ c :: rest) (tail.length + m + 1) =
              (lead :: tail).length + backUp (c :: rest) m := by
            rw [← backUp_append hrest.head, List.length_cons]
            congr 1
            omega
          have hm : m < (c :: rest).length := by
            simp only [List.length_append, List.length_cons] at hn ⊢
            omega
          have hshort : (c :: rest).length < len := by
            simp only [← hlen, List.length_append, List.length_cons]
            omega
          obtain ⟨htake, hdrop, hclose⟩ := ih _ hshort hrest hm rfl
          rw [hback, List.take_length_add_append, List.drop_length_add_append]
          refine ⟨hblock.append htake, hdrop, ?_⟩
          rw [List.length_cons]
          omega

/-- A well-formed text is cut between two characters if 4 bytes of it may be taken. -/
theorem cutWhole_wellFormed {s : Bytes} (h : WellFormed s) {n : ℕ} (hn : n < s.length)
    (hroom : 4 ≤ n) : WellFormed (s.take (cutWhole s n)) ∧ WellFormed (s.drop (cutWhole s n)) := by
  obtain ⟨htake, hdrop, hclose⟩ := backUp_wellFormed h hn
  have hcut : cutWhole s n = backUp s n := by
    unfold cutWhole
    exact if_pos (by omega)
  rw [hcut]
  exact ⟨htake, hdrop⟩

/-! ## Hexadecimal cells -/

theorem hexByte_eq (c : UInt8) : ∃ h l, hexByte c = [h, l] ∧ hexNibble h = some (c.toNat / 16) ∧
    hexNibble l = some (c.toNat % 16) := by
  have digit : ∀ n < 16, hexNibble (UInt8.ofNat (if n < 10 then 48 + n else 55 + n)) = some n := by
    decide
  have hlt := c.toNat_lt
  exact ⟨_, _, rfl, digit _ (by omega), digit _ (by omega)⟩

/-- A text that spells bytes in hexadecimal digits, two for each. -/
inductive SpellsHex : Bytes → Bytes → Prop where
  | nil : SpellsHex [] []
  | cons {h l : UInt8} {high low : ℕ} {text value : Bytes} (hhigh : hexNibble h = some high)
      (hlow : hexNibble l = some low) (htext : SpellsHex text value) :
      SpellsHex (h :: l :: text) (UInt8.ofNat (high * 16 + low) :: value)

theorem spellsHex_flatMap (value : Bytes) : SpellsHex (value.flatMap hexByte) value := by
  induction value with
  | nil => exact .nil
  | cons c value ih =>
    obtain ⟨high, low, hbyte, hhigh, hlow⟩ := hexByte_eq c
    have hcons := ih.cons hhigh hlow
    rw [Nat.mul_comm, Nat.div_add_mod, UInt8.ofNat_toNat] at hcons
    rw [List.flatMap_cons, hbyte]
    exact hcons

namespace SpellsHex

variable {text value : Bytes}

theorem length_eq (h : SpellsHex text value) : text.length = value.length * 2 := by
  induction h with
  | nil => rfl
  | cons _ _ _ ih =>
    simp only [List.length_cons]
    omega

theorem drop (h : SpellsHex text value) (n : ℕ) : SpellsHex (text.drop (n * 2)) (value.drop n) := by
  induction h generalizing n with
  | nil => simpa using .nil
  | @cons c d _ _ text value hhigh hlow htext ih =>
    cases n with
    | zero => exact htext.cons hhigh hlow
    | succ n =>
      rw [Nat.succ_mul]
      exact ih n

/-- The digits are decoded, whatever follows them. -/
theorem decodeHex_eq (h : SpellsHex text value) {n : ℕ} (hn : n ≤ value.length) (rest : Bytes) :
    decodeHex n (text ++ rest) = (value.take n, true) := by
  induction h generalizing n with
  | nil =>
    obtain rfl := Nat.le_zero.1 hn
    unfold decodeHex
    rfl
  | cons hhigh hlow _ ih =>
    cases n with
    | zero =>
      unfold decodeHex
      rfl
    | succ n =>
      rw [List.cons_append, List.cons_append]
      unfold decodeHex
      rw [hhigh, hlow]
      simp only [ih (Nat.le_of_succ_le_succ hn)]
      rfl

end SpellsHex

/-- The text of a cell that is delivered as a value. One character behind the digits of a binary
cell is not looked at. -/
def HoldsValue (column : Column) (cType : CType) (text value : Bytes) : Prop :=
  if cType = .binary ∧ column.sqlType.isBinary then
    ∃ digits rest, SpellsHex digits value ∧ rest.length ≤ 1 ∧ text = digits ++ rest
  else text = value

theorem holdsValue_cellText (column : Column) (cType : CType) (value : Bytes) :
    HoldsValue column cType (cellText column cType value) value := by
  unfold HoldsValue cellText
  split
  · exact ⟨_, [], spellsHex_flatMap value, Nat.zero_le 1, (List.append_nil _).symm⟩
  · rfl

/-! ## One call -/

section chunked

variable {target : Target} {total start : ℕ} {k : ℕ → Conversion}

theorem chunked_spent (h : total < start) :
    chunked target (some start) total k = { ret := .noData, offset := some start } := by
  unfold chunked
  exact if_pos h

theorem chunked_probe (h : start ≤ total) (hprobe : target.probes = true) :
    chunked target (some start) total k =
      { ret := .success, indicator := target.reports (total - start), offset := some start } := by
  unfold chunked
  unfold Target.probes at hprobe
  rw [Option.getD_some, if_neg (Nat.not_lt.2 h), if_pos hprobe]
  rfl

theorem chunked_go (h : start ≤ total) (hprobe : target.probes = false) :
    chunked target (some start) total k = k start := by
  unfold chunked
  unfold Target.probes at hprobe
  rw [Option.getD_some, if_neg (Nat.not_lt.2 h), if_neg (by simp [hprobe])]

end chunked

/-- The length of the piece a buffer takes. -/
structure Fits (cType : CType) (target : Target) (rest : Bytes) (copy : ℕ) : Prop where
  le : copy ≤ rest.length
  pos : rest ≠ [] → 0 < copy
  room : ((copy + (terminator cType).length : ℕ) : ℤ) ≤ target.bufferLength
  whole : cType = .char → 5 ≤ target.bufferLength → WellFormed rest →
    WellFormed (rest.take copy) ∧ WellFormed (rest.drop copy)

variable {column : Column} {target : Target} {value : Bytes} {start : ℕ}

theorem bufferLength_pos (hprobe : target.probes = false) : 0 < target.bufferLength := by
  unfold Target.probes at hprobe
  simp only [Bool.or_eq_false_iff, decide_eq_false_iff_not, not_le] at hprobe
  exact hprobe.2

theorem convertChar_deliver (hstart : start ≤ value.length) (hprobe : target.probes = false)
    (hroom : 2 ≤ target.bufferLength) :
    ∃ copy, Fits .char target (value.drop start) copy ∧
      convertChar value target (some start) =
        deliver target (some start) value.length start copy
          ((value.drop start).take copy ++ terminator .char) := by
  unfold convertChar
  rw [chunked_go hstart hprobe]
  have hterm : (terminator .char).length = 1 := rfl
  generalize value.drop start = rest
  by_cases hfull : rest.length < target.bufferLength.toNat - 1
  · refine ⟨rest.length, ⟨le_rfl, List.length_pos_of_ne_nil, by omega, fun _ _ hwell => ?_⟩, ?_⟩
    · rw [List.take_length, List.drop_length]
      exact ⟨hwell, WellFormed.nil⟩
    · simp only [if_pos hfull, if_neg (lt_irrefl rest.length)]
      rfl
  · simp only [if_neg hfull]
    by_cases hcut : target.bufferLength.toNat - 1 < rest.length
    · have hle := cutWhole_le rest (target.bufferLength.toNat - 1)
      refine ⟨cutWhole rest (target.bufferLength.toNat - 1), ⟨by omega, fun _ => ?_, by omega, ?_⟩, ?_⟩
      · exact cutWhole_pos (by omega)
      · exact fun _ hbuffer hwell => cutWhole_wellFormed hwell hcut (by omega)
      · rw [if_pos hcut]
        rfl
    · have heq : target.bufferLength.toNat - 1 = rest.length := by omega
      refine ⟨rest.length, ⟨le_rfl, List.length_pos_of_ne_nil, by omega, fun _ _ hwell => ?_⟩, ?_⟩
      · rw [List.take_length, List.drop_length]
        exact ⟨hwell, WellFormed.nil⟩
      · rw [if_neg hcut, heq]
        rfl

/-- How much of `remaining` bytes that may be cut anywhere a buffer takes. -/
def Target.takes (target : Target) (remaining : ℕ) : ℕ :=
  if remaining < target.bufferLength.toNat then remaining else target.bufferLength.toNat

theorem fits_binary (hprobe : target.probes = false) (rest : Bytes) :
    Fits .binary target rest (target.takes rest.length) := by
  unfold Target.takes
  have hpos := bufferLength_pos hprobe
  have hterm : (terminator .binary).length = 0 := rfl
  refine ⟨?_, fun hne => ?_, ?_, fun h => ?_⟩
  · split <;> omega
  · have := List.length_pos_of_ne_nil hne
    split <;> omega
  · split <;> omega
  · cases h

theorem convertRaw_deliver (hstart : start ≤ value.length) (hprobe : target.probes = false) :
    ∃ copy, Fits .binary target (value.drop start) copy ∧
      convertRaw value target (some start) =
        deliver target (some start) value.length start copy
          ((value.drop start).take copy ++ terminator .binary) := by
  unfold convertRaw
  rw [chunked_go hstart hprobe]
  refine ⟨_, fits_binary hprobe _, ?_⟩
  show deliver _ _ _ _ _ _ = deliver _ _ _ _ _ (_ ++ [])
  rw [List.append_nil]
  rfl

/-- What is answered to a read of a binary cell whose digits do not decode. -/
def invalidHex : Diag := flDiagSet "22018" (lit "BINARY cell is not valid hex")

theorem convertHex_go {text bytes : Bytes} {ok : Bool} (hstart : start ≤ text.length / 2)
    (hprobe : target.probes = false)
    (hdecode : decodeHex (target.takes (text.length / 2 - start)) (text.drop (start * 2)) =
      (bytes, ok)) :
    convertHex text target (some start) =
      if ok then deliver target (some start) (text.length / 2) start
        (target.takes (text.length / 2 - start)) bytes
      else
        { ret := .error invalidHex
          stored := some (.bytes bytes)
          indicator := target.reports (text.length / 2 - start)
          offset := some start } := by
  unfold convertHex
  rw [chunked_go hstart hprobe]
  unfold Target.takes at hdecode ⊢
  dsimp only
  rw [hdecode]
  rfl

theorem convertHex_deliver {digits last : Bytes} (hdigits : SpellsHex digits value)
    (hlast : last.length ≤ 1) (hstart : start ≤ value.length) (hprobe : target.probes = false) :
    ∃ copy, Fits .binary target (value.drop start) copy ∧
      convertHex (digits ++ last) target (some start) =
        deliver target (some start) value.length start copy
          ((value.drop start).take copy ++ terminator .binary) := by
  have hlength := hdigits.length_eq
  have htotal : (digits ++ last).length / 2 = value.length := by
    rw [List.length_append]
    omega
  have hdrop : (digits ++ last).drop (start * 2) = digits.drop (start * 2) ++ last :=
    List.drop_append_of_le_length (by omega)
  have hfits := fits_binary hprobe (value.drop start)
  have hdecode := (hdigits.drop start).decodeHex_eq hfits.le last
  refine ⟨_, hfits, ?_⟩
  rw [← hdrop, List.length_drop, ← htotal] at hdecode
  rw [convertHex_go (by omega) hprobe hdecode, if_pos rfl, htotal, List.length_drop]
  show deliver _ _ _ _ _ _ = deliver _ _ _ _ _ (_ ++ [])
  rw [List.append_nil]

section fits

variable {rest : Bytes} {copy : ℕ} {cType : CType} {got : GotData}
  {calls : List (Target × GotData)}

theorem ReadsOut.of_fits (hprobe : target.probes = false) (hfits : Fits cType target rest copy)
    (hmore : copy < rest.length) (hret : got.ret = .successWithInfo truncated)
    (hstored : got.stored = some (.bytes (rest.take copy ++ terminator cType)))
    (hind : got.indicator = target.reports rest.length)
    (hcalls : ReadsOut cType (rest.drop copy) calls) :
    ReadsOut cType rest ((target, got) :: calls) := by
  have hlength : (rest.take copy).length = copy := by
    rw [List.length_take]
    omega
  have hpos : 0 < copy := hfits.pos (List.ne_nil_of_length_pos (by omega))
  have hsplit : rest.take copy ++ rest.drop copy = rest := List.take_append_drop copy rest
  have hreads : ReadsOut cType (rest.take copy ++ rest.drop copy) ((target, got) :: calls) := by
    refine ReadsOut.piece hprobe ?_ ?_ hret ⟨hstored, ?_⟩ ?_ ?_ hcalls
    · exact List.ne_nil_of_length_pos (by omega)
    · exact List.ne_nil_of_length_pos (by rw [List.length_drop]; omega)
    · rw [List.length_append, hlength]
      exact hfits.room
    · rw [hsplit]
      exact hind
    · rw [hsplit]
      exact hfits.whole
  rw [hsplit] at hreads
  exact hreads

theorem ReadsOut.last_of_fits (hprobe : target.probes = false)
    (hfits : Fits cType target rest copy) (hall : ¬copy < rest.length) (hret : got.ret = .success)
    (hstored : got.stored = some (.bytes (rest.take copy ++ terminator cType)))
    (hind : got.indicator = target.reports rest.length)
    (hcalls : ∀ call ∈ calls, call.2.ret = .noData ∧ call.2.stored = none) :
    ReadsOut cType rest ((target, got) :: calls) := by
  have hlength : copy = rest.length := le_antisymm hfits.le (not_lt.1 hall)
  have hroom := hfits.room
  rw [hlength, List.take_length] at hstored
  rw [hlength, ← List.length_append] at hroom
  exact ReadsOut.last hprobe hret ⟨hstored, hroom⟩ hind hcalls

end fits

/-! ## The run of the calls -/

/-- The statement a read of a column leaves. -/
def afterRead (stmt : Stmt) (number : UInt16) (offset : ℕ) : Stmt :=
  { stmt with getdataCol := number.toNat, getdataOffset := offset }

variable {stmt : Stmt} {number : UInt16} {cell : Cell} {cType : CType} (beyond : Behind)
  (behind : Bytes)

/-- A read that comes to a column reads the column's cell, if there is one. -/
theorem sqlGetData_onColumn {set : ResultSet} (hset : flStmtCurrentSet stmt = some set)
    (hrow : 0 ≤ stmt.currentRow) (hlt : stmt.currentRow < set.rowCount)
    (hcolumn : columnAt set number = some column) (target : Target) :
    sqlGetData beyond stmt number target =
      match set.cellAt stmt.currentRow (number.toNat - 1) with
      | none => ({ ret := .error (flDiagSet "07009" (lit "Invalid column number")) },
          afterRead stmt number (readOffset stmt number))
      | some cell =>
          let one := convertCell (beyond stmt.currentRow (number.toNat - 1)) column cell target
            (some (readOffset stmt number))
          ({ ret := one.ret
             read := some ⟨stmt.currentRow, number.toNat - 1, readOffset stmt number⟩
             stored := one.stored
             indicator := one.indicator }, afterRead stmt number (one.offset.getD 0)) := by
  unfold sqlGetData readOffset
  rw [hset]
  simp only [if_neg (show ¬(stmt.currentRow < 0 ∨ set.rowCount ≤ stmt.currentRow) by omega), hcolumn]
  by_cases hcol : stmt.getdataCol ≠ number.toNat
  · simp only [if_pos hcol]
    rfl
  · simp only [if_neg hcol]
    rw [not_not] at hcol
    unfold afterRead
    rewrite [← hcol]
    cases set.cellAt stmt.currentRow (number.toNat - 1) <;> rfl

theorem sqlGetData_onCell (h : OnCell stmt number column cell) (target : Target) :
    sqlGetData beyond stmt number target =
      (let one := convertCell (beyond stmt.currentRow (number.toNat - 1)) column cell target
        (some (readOffset stmt number))
      ({ ret := one.ret
         read := some ⟨stmt.currentRow, number.toNat - 1, readOffset stmt number⟩
         stored := one.stored
         indicator := one.indicator }, afterRead stmt number (one.offset.getD 0))) := by
  obtain ⟨set, hset, hrow, hlt, hcolumn, hcell⟩ := h.exists_set
  rw [sqlGetData_onColumn beyond hset hrow hlt hcolumn, hcell]

theorem OnCell.afterRead (h : OnCell stmt number column cell) (offset : ℕ) :
    OnCell (afterRead stmt number offset) number column cell :=
  ⟨h.exists_set⟩

theorem readOffset_afterRead (stmt : Stmt) (number : UInt16) (offset : ℕ) :
    readOffset (afterRead stmt number offset) number = offset := by
  unfold readOffset
  exact if_neg (by simp [afterRead])

theorem convertCell_eq (hnull : cell.isNull = false) (hcType : cType = .char ∨ cType = .binary)
    (htarget : target.cTypeFor column = cType) (offset : Option ℕ) :
    convertCell behind column cell target offset =
      convertText behind column.sqlType (cell.text.getD []) target cType offset := by
  unfold convertCell
  rw [if_neg (by simp [hnull])]
  unfold Target.cTypeFor at htarget
  have htext : ¬(cell.kind = 'b' ∧ cType ≠ .char ∧ cType ≠ .binary) := by
    rintro ⟨-, hchar, hbinary⟩
    exact hcType.elim hchar hbinary
  simp only [htarget, if_neg htext]

section

variable {text : Bytes}

/-- Every case for a value that is delivered in pieces starts as `chunked` does. -/
theorem exists_chunked (hcType : cType = .char ∨ cType = .binary)
    (hholds : HoldsValue column cType text value) (target : Target) (offset : Option ℕ) :
    ∃ k, convertText behind column.sqlType text target cType offset =
      chunked target offset value.length k := by
  unfold HoldsValue at hholds
  rcases hcType with rfl | rfl
  · rw [if_neg fun h => CType.noConfusion h.1] at hholds
    rw [hholds]
    show ∃ k, convertChar _ _ _ = _
    unfold convertChar
    exact ⟨_, rfl⟩
  · show ∃ k, (if column.sqlType.isBinary = true then _ else _) = _
    by_cases hbinary : column.sqlType.isBinary = true
    · rw [if_pos ⟨rfl, hbinary⟩] at hholds
      obtain ⟨digits, rest, hdigits, hrest, rfl⟩ := hholds
      have htotal : (digits ++ rest).length / 2 = value.length := by
        rw [List.length_append, hdigits.length_eq]
        omega
      rw [if_pos hbinary]
      unfold convertHex
      rw [htotal]
      exact ⟨_, rfl⟩
    · rw [if_neg fun h => hbinary h.2] at hholds
      rw [if_neg hbinary, hholds]
      unfold convertRaw
      exact ⟨_, rfl⟩

theorem exists_deliver (hcType : cType = .char ∨ cType = .binary)
    (hholds : HoldsValue column cType text value) (hstart : start ≤ value.length)
    (hprobe : target.probes = false) (hroom : cType = .char → 2 ≤ target.bufferLength) :
    ∃ copy, Fits cType target (value.drop start) copy ∧
      convertText behind column.sqlType text target cType (some start) =
        deliver target (some start) value.length start copy
          ((value.drop start).take copy ++ terminator cType) := by
  unfold HoldsValue at hholds
  rcases hcType with rfl | rfl
  · rw [if_neg fun h => CType.noConfusion h.1] at hholds
    rw [hholds]
    exact convertChar_deliver hstart hprobe (hroom rfl)
  · show ∃ copy, _ ∧ (if column.sqlType.isBinary = true then _ else _) = _
    by_cases hbinary : column.sqlType.isBinary = true
    · rw [if_pos ⟨rfl, hbinary⟩] at hholds
      obtain ⟨digits, rest, hdigits, hrest, rfl⟩ := hholds
      rw [if_pos hbinary]
      exact convertHex_deliver hdigits hrest hstart hprobe
    · rw [if_neg fun h => hbinary h.2] at hholds
      rw [if_neg hbinary, hholds]
      exact convertRaw_deliver hstart hprobe

end

/-- A target that reads a column as `cType`, into a buffer that takes some of a value. -/
structure Admits (column : Column) (cType : CType) (target : Target) : Prop where
  cType_eq : target.cTypeFor column = cType
  room : cType = .char → target.probes = false → 2 ≤ target.bufferLength

theorem noData_readColumn (hcell : OnCell stmt number column cell) (hnull : cell.isNull = false)
    (hcType : cType = .char ∨ cType = .binary)
    (hholds : HoldsValue column cType (cell.text.getD []) value) {targets : List Target}
    (htargets : ∀ target ∈ targets, Admits column cType target)
    (hspent : value.length < readOffset stmt number) :
    ∀ call ∈ readColumn beyond number stmt targets,
      call.2.ret = .noData ∧ call.2.stored = none := by
  induction targets generalizing stmt with
  | nil =>
    intro call hcall
    simp [readColumn] at hcall
  | cons target targets ih =>
    have htarget := (htargets target (by simp)).cType_eq
    obtain ⟨k, hk⟩ := exists_chunked (beyond stmt.currentRow (number.toNat - 1)) hcType hholds target
      (some (readOffset stmt number))
    have hgot := sqlGetData_onCell beyond hcell target
    rw [convertCell_eq _ hnull hcType htarget, hk, chunked_spent hspent] at hgot
    have hlater := ih (hcell.afterRead (readOffset stmt number))
      (fun target h => htargets target (by simp [h]))
      (by rw [readOffset_afterRead]; exact hspent)
    intro call hcall
    unfold readColumn at hcall
    rw [hgot] at hcall
    rcases List.mem_cons.1 hcall with rfl | hcall
    · exact ⟨rfl, rfl⟩
    · exact hlater call hcall

theorem readsOut_readColumn (hcell : OnCell stmt number column cell) (hnull : cell.isNull = false)
    (hcType : cType = .char ∨ cType = .binary)
    (hholds : HoldsValue column cType (cell.text.getD []) value) {targets : List Target}
    (htargets : ∀ target ∈ targets, Admits column cType target)
    (hstart : readOffset stmt number ≤ value.length) :
    ReadsOut cType (value.drop (readOffset stmt number))
      (readColumn beyond number stmt targets) := by
  induction targets generalizing stmt with
  | nil => exact ReadsOut.nil
  | cons target targets ih =>
    have hadmits := htargets target (by simp)
    have hothers : ∀ target ∈ targets, Admits column cType target :=
      fun target h => htargets target (by simp [h])
    have hgot := sqlGetData_onCell beyond hcell target
    rw [convertCell_eq _ hnull hcType hadmits.cType_eq] at hgot
    have hlength : (value.drop (readOffset stmt number)).length =
        value.length - readOffset stmt number := List.length_drop
    unfold readColumn
    by_cases hprobe : target.probes = true
    · obtain ⟨k, hk⟩ := exists_chunked (beyond stmt.currentRow (number.toNat - 1)) hcType hholds
        target (some (readOffset stmt number))
      rw [hk, chunked_probe hstart hprobe] at hgot
      rw [hgot]
      apply ReadsOut.probe hprobe rfl rfl (by rw [hlength])
      have hrest := ih (hcell.afterRead (readOffset stmt number)) hothers
        (by rw [readOffset_afterRead]; exact hstart)
      rw [readOffset_afterRead] at hrest
      exact hrest
    · rw [Bool.not_eq_true] at hprobe
      obtain ⟨copy, hfits, hdeliver⟩ := exists_deliver
        (beyond stmt.currentRow (number.toNat - 1)) hcType hholds hstart hprobe
        fun hchar => hadmits.room hchar hprobe
      rw [hdeliver] at hgot
      rw [hgot]
      have hle := hfits.le
      rw [hlength] at hle
      by_cases hmore : copy < value.length - readOffset stmt number
      · -- a piece that leaves some of the value
        have hnext : ReadsOut cType (value.drop (readOffset stmt number + copy))
            (readColumn beyond number (afterRead stmt number (readOffset stmt number + copy))
              targets) := by
          have hrest := ih (hcell.afterRead (readOffset stmt number + copy)) hothers
            (by rw [readOffset_afterRead]; omega)
          rw [readOffset_afterRead] at hrest
          exact hrest
        rw [← List.drop_drop] at hnext
        simp only [deliver, if_pos hmore]
        exact ReadsOut.of_fits hprobe hfits (by omega) rfl rfl (by rw [hlength]; rfl) hnext
      · -- the rest of the value
        simp only [deliver, if_neg hmore]
        apply ReadsOut.last_of_fits hprobe hfits (by omega) rfl rfl (by rw [hlength]; rfl)
        exact noData_readColumn beyond (hcell.afterRead (value.length + 1)) hnull hcType hholds hothers
          (by rw [readOffset_afterRead]; exact Nat.lt_succ_self _)

theorem readOffset_fresh (hfresh : stmt.getdataCol ≠ number.toNat ∨ stmt.getdataOffset = 0) :
    readOffset stmt number = 0 := by
  unfold readOffset
  by_cases hcol : stmt.getdataCol ≠ number.toNat
  · exact if_pos hcol
  · rw [if_neg hcol]
    exact hfresh.resolve_left hcol

/-- Reading a column to its end delivers its value, whatever the buffers are. -/
theorem reassembles_readColumn (hcell : OnCell stmt number column cell)
    (hnull : cell.isNull = false) (hcType : cType = .char ∨ cType = .binary)
    (hvalue : cell.text.getD [] = cellText column cType value)
    (hfresh : stmt.getdataCol ≠ number.toNat ∨ stmt.getdataOffset = 0) {targets : List Target}
    (htargets : ∀ target ∈ targets, Admits column cType target) :
    ∃ before after, readColumn beyond number stmt targets = before ++ after ∧
      Reassembles cType value before after := by
  have hoffset := readOffset_fresh hfresh
  have hholds : HoldsValue column cType (cell.text.getD []) value :=
    hvalue ▸ holdsValue_cellText column cType value
  have hreads := readsOut_readColumn beyond hcell hnull hcType hholds htargets
    (by rw [hoffset]; exact Nat.zero_le _)
  rw [hoffset, List.drop_zero] at hreads
  exact hreads.exists_reassembles

/-- A statement on a row with the one cell `snø`, in a `VARCHAR` column. -/
def snowStmt : Stmt :=
  { preparedSql := none
    response := none
    currentSet := 0
    synth := some
      { columns := [⟨lit "V", none, .varchar, 16, 0, 16⟩]
        columnCount := 1
        cells := [⟨some (lit "snø"), 's', false⟩]
        rowCount := 1 }
    currentRow := 0
    rowCount := 1
    getdataCol := -1
    getdataOffset := 0
    params := []
    multiStatementCount := 0 }

theorem reassembles_readColumn_snow : ∃ before after,
    readColumn (fun _ _ => []) 1 snowStmt
        [⟨.char, false, 0, true⟩, ⟨.char, true, 4, true⟩, ⟨.default, true, 9, true⟩] =
      before ++ after ∧ Reassembles .char (lit "snø") before after := by
  have hcell : OnCell snowStmt 1 ⟨lit "V", none, .varchar, 16, 0, 16⟩ ⟨some (lit "snø"), 's', false⟩ :=
    ⟨_, rfl, le_rfl, Int.zero_lt_one, rfl, rfl⟩
  refine reassembles_readColumn (fun _ _ => []) hcell rfl (Or.inl rfl) rfl (Or.inl (by decide)) ?_
  intro target htarget
  simp only [List.mem_cons, List.not_mem_nil, or_false] at htarget
  rcases htarget with rfl | rfl | rfl
  · exact ⟨rfl, fun _ h => by cases h⟩
  · exact ⟨rfl, fun _ _ => by decide⟩
  · exact ⟨rfl, fun _ _ => by decide⟩

end FrostlakeOdbc
