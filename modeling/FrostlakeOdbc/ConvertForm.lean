import FrostlakeOdbc.ChunkProof

/-!
# What a conversion does with its offset

As a function of the offset, `convert_cell` either hands it on or delivers a piece of a value from there
on (`convertCell_form`). What depends on the offset only is read off these two forms: how far it goes
(`offset_convertCell_le`), and that a column delivered whole is what a first read of it delivers
(`convertCell_fresh`).
-/

namespace FrostlakeOdbc

open CString

/-- A piece of a value of `total` bytes from `start` on, as a function of the offset: nothing is
delivered, or `copy` bytes are. -/
inductive PieceForm (target : Target) (total start : ℕ) : (Option ℕ → Conversion) → Prop where
  | refused (c : Conversion) : PieceForm target total start fun offset => { c with offset := offset }
  | delivered (copy : ℕ) (content : Bytes) :
      PieceForm target total start fun offset => deliver target offset total start copy content

/-- A conversion as a function of the offset, of a value of at most `limit` bytes. -/
inductive ConversionForm (target : Target) (limit : ℕ) : (Option ℕ → Conversion) → Prop where
  | steady (c : Conversion) : ConversionForm target limit fun offset => { c with offset := offset }
  | pieces {total : ℕ} {k : ℕ → Option ℕ → Conversion} (htotal : total ≤ limit)
      (hk : ∀ start, PieceForm target total start (k start)) :
      ConversionForm target limit fun offset => chunked target offset total fun start => k start offset

section

variable (target : Target) {limit : ℕ} (text : Bytes)

theorem form_convertChar (h : text.length ≤ limit) :
    ConversionForm target limit (convertChar text target) :=
  .pieces h fun _ => .delivered _ _

theorem form_convertRaw (h : text.length ≤ limit) :
    ConversionForm target limit (convertRaw text target) :=
  .pieces h fun _ => .delivered _ _

theorem form_convertHex (h : text.length ≤ limit) :
    ConversionForm target limit (convertHex text target) := by
  have htotal : text.length / 2 ≤ limit := le_trans (Nat.div_le_self _ _) h
  unfold convertHex
  refine .pieces htotal fun start => ?_
  dsimp only
  generalize decodeHex _ _ = decoded
  by_cases hok : decoded.2 = true
  · simp only [hok, if_true]
    exact .delivered _ _
  · simp only [hok, Bool.false_eq_true, if_false]
    exact .refused ⟨_, _, _, none⟩

theorem form_refuse (sqlstate : String) (message : Bytes) :
    ConversionForm target limit fun offset => refuse offset sqlstate message :=
  .steady ⟨_, _, _, none⟩

theorem form_fixed (size : ℤ) (value : Stored) :
    ConversionForm target limit fun offset => fixed target offset size value :=
  .steady ⟨_, _, _, none⟩

theorem form_convertInteger (low high : ℤ) (size : ℕ) :
    ConversionForm target limit (convertInteger low high size text target) := by
  unfold convertInteger
  cases parseInteger text with
  | notNumber => exact form_refuse target _ _
  | outOfRange => exact form_refuse target _ _
  | value n =>
    by_cases hrange : n < low ∨ high < n
    · simp only [hrange, if_true]
      exact form_refuse target _ _
    · simp only [hrange, if_false]
      exact form_fixed target _ _

theorem form_convertFloating (size : ℤ) (store : Bytes → Stored) :
    ConversionForm target limit (convertFloating size store text target) := by
  unfold convertFloating
  split
  · exact form_refuse target _ _
  · exact form_fixed target _ _

theorem form_convertBit : ConversionForm target limit (convertBit text target) := by
  unfold convertBit
  repeat' split
  all_goals first
    | exact form_fixed target _ _
    | exact form_refuse target _ _

theorem form_convertTemporal (size : ℤ) (name : String) (parsed : Option Stored) :
    ConversionForm target limit (convertTemporal size name parsed text target) := by
  unfold convertTemporal
  cases parsed with
  | none => exact form_refuse target _ _
  | some value => exact form_fixed target _ _

theorem form_convertText (beyond : Bytes) (sqlType : SqlType) (cType : CType)
    (h : text.length ≤ limit) :
    ConversionForm target limit (convertText beyond sqlType text target cType) := by
  unfold convertText
  cases cType
  case char => exact form_convertChar target text h
  case binary =>
    dsimp only
    split
    · exact form_convertHex target text h
    · exact form_convertRaw target text h
  case default => exact form_refuse target _ _
  case other => exact form_refuse target _ _
  case float => exact form_convertFloating target text _ _
  case double => exact form_convertFloating target text _ _
  case bit => exact form_convertBit target text
  case typeDate => exact form_convertTemporal target text _ _ _
  case typeTime => exact form_convertTemporal target text _ _ _
  case typeTimestamp => exact form_convertTemporal target text _ _ _
  all_goals exact form_convertInteger target text _ _ _

end

theorem length_booleanText_le (text : Bytes) : (booleanText text).length ≤ text.length := by
  unfold booleanText
  split
  · next h =>
    rw [h]
    decide
  · split
    · next h =>
      rw [h]
      decide
    · exact le_rfl

/-- `convert_cell` hands the offset on, or delivers a piece of the cell's text from there on. -/
theorem convertCell_form (behind : Bytes) (column : Column) (cell : Cell) (target : Target) :
    ConversionForm target (cell.text.getD []).length (convertCell behind column cell target) := by
  unfold convertCell
  by_cases hnull : cell.isNull = true
  · simp only [hnull, if_true]
    split
    · exact .steady ⟨_, _, _, none⟩
    · exact form_refuse target _ _
  · simp only [hnull, Bool.false_eq_true, if_false]
    generalize (if target.cType = CType.default then _ else _ : CType) = cType
    apply form_convertText
    by_cases hword : cell.kind = 'b' ∧ cType ≠ .char ∧ cType ≠ .binary
    · rw [if_pos hword]
      exact length_booleanText_le _
    · exact le_of_eq (congrArg List.length (if_neg hword))

/-! ## What follows from the form -/

namespace ConversionForm

variable {target : Target} {limit : ℕ} {f : Option ℕ → Conversion}

/-- A read leaves the offset within the value, or one behind its end. -/
theorem offset_le (h : ConversionForm target limit f) {start : ℕ} (hstart : start ≤ limit + 1) :
    (f (some start)).offset.getD 0 ≤ limit + 1 := by
  cases h with
  | steady c => exact hstart
  | @pieces total k htotal hk =>
    show (chunked target (some start) total fun i => k i (some start)).offset.getD 0 ≤ limit + 1
    by_cases hspent : total < start
    · rw [chunked_spent hspent]
      exact hstart
    · rw [not_lt] at hspent
      cases hprobe : target.probes with
      | true =>
        rw [chunked_probe hspent hprobe]
        exact hstart
      | false =>
        rw [chunked_go hspent hprobe]
        have hpiece := hk start
        generalize k start = piece at hpiece
        cases hpiece with
        | refused c => exact hstart
        | delivered copy content =>
          show (if copy < total - start then start + copy else total + 1) ≤ limit + 1
          split <;> omega

/-- A value that is delivered whole is what a first read delivers. -/
theorem fresh (h : ConversionForm target limit f) :
    (f none).ret = (f (some 0)).ret ∧ (f none).stored = (f (some 0)).stored ∧
      (f none).indicator = (f (some 0)).indicator := by
  cases h with
  | steady c => exact ⟨rfl, rfl, rfl⟩
  | @pieces total k htotal hk =>
    show (chunked target none total fun start => k start none).ret = _ ∧ _
    unfold chunked
    simp only [Option.getD_none, Option.getD_some, Nat.not_lt_zero, if_false]
    split
    · exact ⟨rfl, rfl, rfl⟩
    · have hpiece := hk 0
      generalize k 0 = piece at hpiece
      cases hpiece with
      | refused c => exact ⟨rfl, rfl, rfl⟩
      | delivered copy content => exact ⟨rfl, rfl, rfl⟩

end ConversionForm

end FrostlakeOdbc
