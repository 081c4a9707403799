import FrostlakeOdbc.Attributes
import FrostlakeOdbc.SessionHistory

/-!
# The lengths of texts that are handed back

`fl_copy_string` counts in 16 bits. A text of 2^15 bytes or more has a length that they cannot hold, and
`SQLGetConnectAttr` counts its buffer in 32 (`contract_iff`).
-/

namespace FrostlakeOdbc

open CString

/-! ## The contract -/

/-- A call that hands back a text: the text, whether there is a pointer to a buffer and one to a length,
and the length of the buffer, in the integers that the call counts in. -/
structure TextCall where
  text : Bytes
  buffer : Bool
  bufferLength : ℤ
  lengthPtr : Bool
  bits : ℕ

/-- A buffer of at least one byte is given. -/
def TextCall.Given (call : TextCall) : Prop := call.buffer = true ∧ 0 < call.bufferLength

/-- What a call that hands back a text does with its buffer and its length. -/
structure Contract (call : TextCall) (copied : CopiedString) : Prop where
  success_iff : copied.ret = .success ↔ ¬call.Given ∨ (call.text.length : ℤ) < call.bufferLength
  whole : call.Given → (call.text.length : ℤ) < call.bufferLength → copied.written = call.text ++ [0]
  cut : call.Given → call.bufferLength ≤ call.text.length →
    copied.ret = .successWithInfo truncated ∧
      copied.written = call.text.take (call.bufferLength.toNat - 1) ++ [0]
  bounded : (copied.written.length : ℤ) ≤ max 0 call.bufferLength
  untouched : ¬call.Given → copied.written = []
  length : ∀ n ∈ copied.reported, (call.text.length < 2 ^ (call.bits - 1) → n = call.text.length) ∧ 0 ≤ n

/-- The calls that hand back a text, each with what it is asked for. -/
inductive Returns : TextCall → CopiedString → Prop
  | describeCol {stmt : Stmt} {columnNumber : UInt16} {columnName : Bool} {bufferLength : Int16}
      {nameLengthPtr : Bool} {column : Column} {description : ColumnDescription}
      (hcolumn : (flStmtCurrentSet stmt).bind (columnAt · columnNumber) = some column)
      (h : sqlDescribeCol stmt columnNumber columnName bufferLength nameLengthPtr = .ok description) :
      Returns ⟨column.name, columnName, bufferLength.toInt, nameLengthPtr, 16⟩ description.name
  | colAttribute {stmt : Stmt} {columnNumber : UInt16} {field : ColumnField}
      {characterAttributePtr : Bool} {bufferLength : Int16} {stringLengthPtr : Bool} {column : Column}
      {text : Bytes} {copied : CopiedString}
      (hcolumn : (flStmtCurrentSet stmt).bind (columnAt · columnNumber) = some column)
      (htext : field.text column = some text)
      (h : sqlColAttribute stmt columnNumber field characterAttributePtr bufferLength stringLengthPtr =
        .text copied) :
      Returns ⟨text, characterAttributePtr, bufferLength.toInt, stringLengthPtr, 16⟩ copied
  | getInfo {dbc : Dbc} {infoType : InfoType} {infoValuePtr : Bool} {bufferLength : Int16}
      {stringLengthPtr : Bool} {text : Bytes} {copied : CopiedString}
      (htext : infoType.entry dbc = .string text)
      (h : sqlGetInfo dbc infoType infoValuePtr bufferLength stringLengthPtr = .text copied) :
      Returns ⟨text, infoValuePtr, bufferLength.toInt, stringLengthPtr, 16⟩ copied
  | getConnectAttr {dbc : Dbc} {valuePtr : Bool} {bufferLength : Int32} {stringLengthPtr : Bool}
      {copied : CopiedString}
      (h : sqlGetConnectAttr dbc .currentCatalog valuePtr bufferLength stringLengthPtr = .text copied) :
      Returns ⟨dbc.database.getD [], valuePtr, bufferLength.toInt, stringLengthPtr, 32⟩ copied

/-- The length of a text in 16 bits. -/
def narrow (n : ℤ) : ℤ := n.bmod (2 ^ 16)

/-- The length of the text is asked for only where it is its own in 16 bits, or where these have no
sign and the integers of the call cannot hold it either. -/
def LengthFits (call : TextCall) : Prop :=
  call.lengthPtr = true → 0 ≤ narrow call.text.length ∧
    (call.text.length < 2 ^ 15 ∨ 2 ^ (call.bits - 1) ≤ call.text.length)

/-- There is no buffer, also not in 16 bits, or there is one in which 16 bits of its length are its
length, or enough for the text. -/
def BufferFits (call : TextCall) : Prop :=
  call.buffer = true → (call.bufferLength ≤ 0 ∧ narrow call.bufferLength ≤ 0) ∨
    (0 < call.bufferLength ∧ 0 < narrow call.bufferLength ∧
      (narrow call.bufferLength = call.bufferLength ∨
        (call.text.length : ℤ) < narrow call.bufferLength))

/-! ## What is copied -/

/-- What is returned for a copy into a buffer of `size` bytes, and what is written. -/
inductive Copies (text : Bytes) (buffer : Bool) (size : ℤ) : SqlReturn → Bytes → Prop
  | nothing (h : buffer = false ∨ size ≤ 0) : Copies text buffer size .success []
  | whole (h : buffer = true) (hpos : 0 < size) (hlength : (text.length : ℤ) < size) :
      Copies text buffer size .success (text ++ [0])
  | cut (h : buffer = true) (hpos : 0 < size) (hlength : size ≤ text.length) :
      Copies text buffer size (.successWithInfo truncated) (text.take (size.toNat - 1) ++ [0])

theorem narrow_of_lt {n : ℤ} (hle : -2 ^ 15 ≤ n) (hlt : n < 2 ^ 15) : narrow n = n :=
  Int.bmod_eq_of_le (by omega) (by omega)

theorem narrow_toInt (n : Int16) : narrow n.toInt = n.toInt :=
  narrow_of_lt n.le_toInt n.toInt_lt

theorem narrow_lt (n : ℤ) : narrow n < 2 ^ 15 :=
  Int.bmod_lt (by decide)

theorem narrow_le {n : ℤ} (h : 0 < n) : narrow n ≤ n := by
  by_cases hlt : n < 2 ^ 15
  · exact (narrow_of_lt (by omega) hlt).le
  · exact (narrow_lt n).le.trans (not_lt.1 hlt)

theorem copies_flCopyString (value : Option Bytes) (buffer : Bool) (bufferLength : Int16)
    (outLength : Bool) :
    Copies (value.getD []) buffer bufferLength.toInt
      (flCopyString value buffer bufferLength outLength).ret
      (flCopyString value buffer bufferLength outLength).written := by
  unfold flCopyString
  generalize value.getD [] = text
  dsimp only
  generalize (if outLength = true then some (Int16.ofNat text.length).toInt else none) = reported
  split_ifs with hnone hlength
  · exact .nothing (by simpa using hnone)
  · rw [not_or, Bool.not_eq_true', Bool.not_eq_false, not_le] at hnone
    exact .whole hnone.1 hnone.2 (by omega)
  · rw [not_or, Bool.not_eq_true', Bool.not_eq_false, not_le] at hnone
    exact .cut hnone.1 hnone.2 (by omega)

theorem reported_flCopyString (value : Option Bytes) (buffer : Bool) (bufferLength : Int16)
    (outLength : Bool) :
    (flCopyString value buffer bufferLength outLength).reported =
      if outLength then some (narrow (value.getD []).length) else none := by
  have hnarrow : narrow (value.getD []).length = (Int16.ofNat (value.getD []).length).toInt :=
    Int16.toInt_ofNat'.symm
  rw [hnarrow]
  unfold flCopyString
  dsimp only
  split_ifs <;> rfl

/-- Every call copies with the low 16 bits of its buffer length. -/
theorem Returns.copies {call : TextCall} {copied : CopiedString} (h : Returns call copied) :
    Copies call.text call.buffer (narrow call.bufferLength) copied.ret copied.written ∧
      copied.reported = if call.lengthPtr then some (narrow call.text.length) else none := by
  cases h with
  | describeCol hcolumn h =>
    unfold sqlDescribeCol at h
    rw [hcolumn] at h
    cases h
    rw [narrow_toInt]
    exact ⟨copies_flCopyString (some _) _ _ _, reported_flCopyString (some _) _ _ _⟩
  | @colAttribute _ _ field _ _ _ _ _ _ hcolumn htext h =>
    unfold sqlColAttribute at h
    split at h
    · cases htext
    · rw [hcolumn] at h
      dsimp only at h
      rw [htext] at h
      cases h
      rw [narrow_toInt]
      exact ⟨copies_flCopyString (some _) _ _ _, reported_flCopyString (some _) _ _ _⟩
  | getInfo htext h =>
    unfold sqlGetInfo at h
    rw [htext] at h
    cases h
    rw [narrow_toInt]
    exact ⟨copies_flCopyString (some _) _ _ _, reported_flCopyString (some _) _ _ _⟩
  | @getConnectAttr dbc valuePtr bufferLength _ _ h =>
    cases h
    have hnarrow : narrow bufferLength.toInt = bufferLength.toInt16.toInt :=
      bufferLength.toInt_toInt16.symm
    dsimp only
    rw [hnarrow, reported_flCopyString]
    exact ⟨copies_flCopyString _ _ _ _, rfl⟩

/-! ## Where the contract is kept -/

section

variable {call : TextCall} {copied : CopiedString}

theorem bufferFits_of_contract
    (hcopies : Copies call.text call.buffer (narrow call.bufferLength) copied.ret copied.written)
    (h : Contract call copied) : BufferFits call := by
  intro hbuffer
  by_cases hpos : 0 < call.bufferLength
  · have hgiven : call.Given := ⟨hbuffer, hpos⟩
    have hcut := h.cut hgiven
    have hwhole := h.whole hgiven
    have hsuccess := h.success_iff
    generalize copied.ret = ret at *
    generalize copied.written = written at *
    cases hcopies with
    | nothing hnone =>
      -- nothing is written where something is to be
      exfalso
      rcases lt_or_ge (call.text.length : ℤ) call.bufferLength with hlt | hge
      · exact List.append_ne_nil_of_right_ne_nil call.text (by simp) (hwhole hlt).symm
      · cases (hcut hge).1
    | whole _ hnarrow hlt => exact .inr ⟨hpos, hnarrow, .inr hlt⟩
    | cut _ hnarrow hge =>
      refine .inr ⟨hpos, hnarrow, .inl ?_⟩
      rcases lt_or_ge (call.text.length : ℤ) call.bufferLength with hlt | hge'
      · cases hsuccess.2 (.inr hlt)
      · have hlengths := congrArg List.length (hcut hge').2
        simp only [List.length_append, List.length_take, List.length_singleton] at hlengths
        omega
  · have hnothing := h.untouched fun hgiven => hpos hgiven.2
    left
    refine ⟨not_lt.1 hpos, ?_⟩
    generalize copied.ret = ret at *
    generalize copied.written = written at *
    cases hcopies with
    | nothing hnone => exact hnone.resolve_left (by rw [hbuffer]; decide)
    | whole => exact absurd hnothing (by simp)
    | cut => exact absurd hnothing (by simp)

theorem lengthFits_of_contract
    (hreported : copied.reported = if call.lengthPtr then some (narrow call.text.length) else none)
    (h : Contract call copied) : LengthFits call := by
  intro hptr
  rw [if_pos hptr] at hreported
  obtain ⟨hsame, hnonneg⟩ := h.length _ hreported
  refine ⟨hnonneg, ?_⟩
  by_contra hnot
  rw [not_or, not_lt, not_le] at hnot
  have hlt := narrow_lt call.text.length
  rw [hsame hnot.2] at hlt
  omega

theorem contract_of_fits
    (hcopies : Copies call.text call.buffer (narrow call.bufferLength) copied.ret copied.written)
    (hreported : copied.reported = if call.lengthPtr then some (narrow call.text.length) else none)
    (hlength : LengthFits call) (hbuffer : BufferFits call) : Contract call copied := by
  have hreport : ∀ n ∈ copied.reported,
      (call.text.length < 2 ^ (call.bits - 1) → n = call.text.length) ∧ 0 ≤ n := by
    intro n hn
    rw [hreported] at hn
    split at hn
    · next hptr =>
      obtain rfl : narrow call.text.length = n := Option.some.inj hn
      obtain ⟨hnonneg, hshort⟩ := hlength hptr
      exact ⟨fun hlt => narrow_of_lt (by omega) (by have := hshort.resolve_right hlt.not_ge; omega),
        hnonneg⟩
    · cases hn
  have hkept : copied.ret = .success ∧ copied.written = [] ∧ ¬call.Given ∨
      call.Given ∧ ((call.text.length : ℤ) < call.bufferLength ∧ copied.ret = .success ∧
          copied.written = call.text ++ [0] ∨
        call.bufferLength ≤ call.text.length ∧ copied.ret = .successWithInfo truncated ∧
          copied.written = call.text.take (call.bufferLength.toNat - 1) ++ [0]) := by
    unfold TextCall.Given
    generalize copied.ret = ret at *
    generalize copied.written = written at *
    cases hcopies with
    | nothing hnone =>
      refine .inl ⟨rfl, rfl, fun hgiven => ?_⟩
      rcases hnone with hnone | hnone
      · rw [hgiven.1] at hnone
        cases hnone
      · rcases hbuffer hgiven.1 with ⟨hle, -⟩ | ⟨-, hpos, -⟩
        · exact hle.not_gt hgiven.2
        · exact hnone.not_gt hpos
    | whole h hnarrow hlt =>
      rcases hbuffer h with ⟨-, hle⟩ | ⟨hpos, -, -⟩
      · exact absurd hnarrow hle.not_gt
      · exact .inr ⟨⟨h, hpos⟩, .inl ⟨hlt.trans_le (narrow_le hpos), rfl, rfl⟩⟩
    | cut h hnarrow hge =>
      rcases hbuffer h with ⟨-, hle⟩ | ⟨hpos, -, heq | hlt⟩
      · exact absurd hnarrow hle.not_gt
      · rw [heq] at hge ⊢
        exact .inr ⟨⟨h, hpos⟩, .inr ⟨hge, rfl, rfl⟩⟩
      · exact absurd hlt hge.not_gt
  rcases hkept with ⟨hret, hwritten, hnot⟩ | ⟨hgiven, ⟨hlt, hret, hwritten⟩ | ⟨hge, hret, hwritten⟩⟩
  · exact
      { success_iff := iff_of_true hret (.inl hnot)
        whole := fun hgiven => absurd hgiven hnot
        cut := fun hgiven => absurd hgiven hnot
        bounded := by rw [hwritten]; exact le_max_left _ _
        untouched := fun _ => hwritten
        length := hreport }
  · exact
      { success_iff := iff_of_true hret (.inr hlt)
        whole := fun _ _ => hwritten
        cut := fun _ hge => absurd hlt hge.not_gt
        bounded := by
          rw [hwritten, List.length_append, List.length_singleton]
          omega
        untouched := fun hnot => absurd hgiven hnot
        length := hreport }
  · exact
      { success_iff := by
          rw [hret]
          exact iff_of_false (by simp) (not_or.2 ⟨not_not.2 hgiven, hge.not_gt⟩)
        whole := fun _ hlt => absurd hlt hge.not_gt
        cut := fun _ _ => ⟨hret, hwritten⟩
        bounded := by
          have hpos := hgiven.2
          rw [hwritten, List.length_append, List.length_singleton, List.length_take]
          omega
        untouched := fun hnot => absurd hgiven hnot
        length := hreport }

/-- A text is handed back as it should be just where 16 bits are enough for its length and for that of
the buffer, as far as these count. -/
theorem contract_iff (h : Returns call copied) :
    Contract call copied ↔ LengthFits call ∧ BufferFits call := by
  obtain ⟨hcopies, hreported⟩ := h.copies
  exact ⟨fun h => ⟨lengthFits_of_contract hreported h, bufferFits_of_contract hcopies h⟩,
    fun h => contract_of_fits hcopies hreported h.1 h.2⟩

end

/-- A connection with a current catalog. -/
def catalogDbc (name : Bytes) : Dbc := { allocDbc with database := some name }

/-- A statement with a result of one column. -/
def namedStmt (name : Bytes) : Stmt :=
  { freshStmt with
    synth := some
      { columns := [⟨name, none, .varchar, 16, 0, 16⟩], columnCount := 1, cells := [], rowCount := 0 } }

/-- A catalog name that is cut in a buffer of eight bytes. -/
theorem contract_iff_catalog :
    ∃ copied, sqlGetConnectAttr (catalogDbc (lit "WAREHOUSE")) .currentCatalog true 8 true =
      .text copied ∧
      (Contract ⟨lit "WAREHOUSE", true, 8, true, 32⟩ copied ↔
        LengthFits ⟨lit "WAREHOUSE", true, 8, true, 32⟩ ∧
          BufferFits ⟨lit "WAREHOUSE", true, 8, true, 32⟩) :=
  ⟨_, rfl, contract_iff (@Returns.getConnectAttr (catalogDbc (lit "WAREHOUSE")) true 8 true _ rfl)⟩

/-- The length of a column name of 40000 bytes is reported as a negative number, and a catalog name is
not written to a buffer of 65536 bytes. -/
theorem not_contract_long :
    (∃ description, sqlDescribeCol (namedStmt (List.replicate 40000 (ch 'A'))) 1 true 256 true =
        .ok description ∧ description.name.reported = some (-25536) ∧
      ¬Contract ⟨List.replicate 40000 (ch 'A'), true, 256, true, 16⟩ description.name) ∧
    ∃ copied, sqlGetConnectAttr (catalogDbc (lit "DEMO")) .currentCatalog true 65536 true =
      .text copied ∧ copied.ret = .success ∧ copied.written = [] ∧
      ¬Contract ⟨lit "DEMO", true, 65536, true, 32⟩ copied := by
  have hreported : (flCopyString (some (List.replicate 40000 (ch 'A'))) true 256 true).reported =
      some (-25536) := by
    rw [reported_flCopyString, Option.getD_some, List.length_replicate]
    rfl
  refine ⟨⟨_, rfl, hreported, fun h => ?_⟩, _, rfl, rfl, rfl, fun h => ?_⟩
  · exact absurd (h.length _ hreported).2 (by decide)
  · have hwhole := h.whole ⟨rfl, by decide⟩ (by decide)
    cases hwhole

end FrostlakeOdbc
