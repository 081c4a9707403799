import FrostlakeOdbc.JsonProof
import FrostlakeOdbc.Proto
import Mathlib.Data.List.Forall2

/-!
# Result sets arrive as they were sent

What the engine sends as a successful answer, in any legal spelling, is decoded to the same result
sets with the same cells (`readReply_sets`).
-/

namespace FrostlakeOdbc

open CString JsonText

/-! ## What the engine sends -/

/-- A cell as the engine means it. -/
inductive SentCell : Type where
  | null
  | number (lexeme : Bytes)
  | bool (b : Bool)
  | string (cs : List Char) (nul : '\x00' ∉ cs)

def SentCell.value : SentCell → Value
  | .null => .null
  | .number lexeme => .number lexeme
  | .bool b => .bool b
  | .string cs _ => .string (utf8 cs)

/-- What a cell has to read as in a column of the given type. -/
def SentCell.cell (sqlType : SqlType) : SentCell → Cell
  | .null => { text := none, kind := 's', isNull := true }
  | .number lexeme => { text := some lexeme, kind := 'n', isNull := false }
  | .bool b =>
      { text := some (if sqlType = .bit then (if b then lit "1" else lit "0")
          else (if b then lit "true" else lit "false"))
        kind := 'b'
        isNull := false }
  | .string cs _ => { text := some (utf8 cs), kind := 's', isNull := false }

/-- A result set: the type names of its columns, and its rows. The driver counts in `int`. -/
structure SentSet where
  dataTypes : List Bytes
  rows : List (List SentCell)
  nul : ∀ t ∈ dataTypes, 0 ∉ t
  rectangular : ∀ row ∈ rows, row.length = dataTypes.length
  columns_lt : dataTypes.length < 2 ^ 31
  rows_lt : rows.length < 2 ^ 31
  cells_lt : rows.length * dataTypes.length < 2 ^ 31

/-- The members of a record: no key stands there twice, and none holds a NUL. -/
structure Record (ms : List (Bytes × Value)) : Prop where
  nodup : (ms.map Prod.fst).Nodup
  nul : ∀ m ∈ ms, 0 ∉ m.1

def IsColumn (dataType : Bytes) (v : Value) : Prop :=
  ∃ ms, v = .object ms ∧ Record ms ∧ (lit "dataType", .string dataType) ∈ ms

def IsSet (set : SentSet) (v : Value) : Prop :=
  ∃ ms columns, v = .object ms ∧ Record ms ∧ (lit "columns", .array columns) ∈ ms ∧
    List.Forall₂ IsColumn set.dataTypes columns ∧
    (lit "rows", .array (set.rows.map fun row => .array (row.map SentCell.value))) ∈ ms

/-- A successful `SqlResponse` with the given result sets, whatever else it holds. -/
def IsResponse (sets : List SentSet) (v : Value) : Prop :=
  ∃ ms vs, v = .object ms ∧ Record ms ∧ (lit "success", .bool true) ∈ ms ∧
    (lit "resultSets", .array vs) ∈ ms ∧ List.Forall₂ IsSet sets vs

/-- The text `s` between the quotes stands for the UTF-8 text `t`. -/
def StringOf (t s : Bytes) : Prop := ∃ cs, t = utf8 cs ∧ StringText cs s

/-- A legal JSON text of a value, nested no deeper than the parser goes. -/
def Serialises (v : Value) (s : Bytes) : Prop := Padded (Spells StringOf 64 v) s

/-- A decoded result set has the rows, the columns and the cells of the one that was sent. -/
structure Decodes (set : SentSet) (d : ResultSet) : Prop where
  rowCount : d.rowCount = set.rows.length
  columnCount : d.columnCount = set.dataTypes.length
  cellCount : d.cells.length = set.rows.length * set.dataTypes.length
  cell : ∀ r row c cell, set.rows[r]? = some row → row[c]? = some cell →
    ∃ column, d.columns[c]? = some column ∧ column.typeName = set.dataTypes[c]? ∧
      d.cells[r * set.dataTypes.length + c]? = some (cell.cell column.sqlType)

/-! ## The text -/

theorem eq_nul_of_zero_mem {c : Char} (h : 0 ∈ String.utf8EncodeChar c) : c = '\x00' := by
  by_cases hlt : c.toNat < 0x80
  · rw [utf8EncodeChar_ascii hlt, List.mem_singleton] at h
    have hzero := congrArg UInt8.toNat h
    rw [ch, UInt8.toNat_ofNat', Nat.mod_eq_of_lt (by omega)] at hzero
    exact Char.toNat_inj.1 hzero.symm
  · exact absurd rfl (ne_of_mem_utf8EncodeChar (by omega) h (by decide))

theorem zero_notMem_utf8 {cs : List Char} (h : '\x00' ∉ cs) : 0 ∉ utf8 cs := by
  intro h0
  obtain ⟨c, hc, h0⟩ := List.mem_flatMap.1 h0
  exact h (eq_nul_of_zero_mem h0 ▸ hc)

theorem zero_notMem_charText {c : Char} {s : Bytes} (h : CharText c s) : 0 ∉ s := by
  cases h with
  | raw hc _ _ =>
    intro h0
    rw [eq_nul_of_zero_mem h0] at hc
    exact absurd hc (by decide)
  | short he => simp [ne_zero_of_shortEscape he]
  | hex h => simp [h.zero_notMem]
  | pair _ hhi hlo => simp [hhi.zero_notMem, hlo.zero_notMem]

theorem zero_notMem_stringText {cs : List Char} {s : Bytes} (h : StringText cs s) : 0 ∉ s := by
  induction h with
  | nil => simp
  | cons hc _ ih => simp [zero_notMem_charText hc, ih]

/-- What the engine serialised is what the parser reads. -/
theorem flJsonParse_serialises {v : Value} {s : Bytes} (h : Serialises v s) :
    flJsonParse (cstr s) = some v := by
  have hstr : ReadsStrings StringOf := by
    rintro t s ⟨cs, rfl, hs⟩ rest
    exact parseStringBody_stringText hs rest
  have hzero : 0 ∉ s := by
    obtain ⟨a, t, b, ha, ht, hb, rfl⟩ := h
    have ht0 : 0 ∉ t := ht.zero_notMem fun _ _ ⟨_, _, hs⟩ => zero_notMem_stringText hs
    simp [ha.zero_notMem, ht0, hb.zero_notMem]
  rw [cstr_eq_self hzero]
  exact flJsonParse_spells hstr h

/-! ## Lookups -/

theorem Record.get {ms : List (Bytes × Value)} {key : Bytes} {v : Value} (h : Record ms)
    (hm : (key, v) ∈ ms) : flJsonGet (some (.object ms)) key = some v := by
  obtain ⟨hnodup, hnul⟩ := h
  rw [flJsonGet]
  induction ms with
  | nil => simp at hm
  | cons m ms ih =>
    rw [List.map_cons, List.nodup_cons] at hnodup
    rw [List.find?_cons, cstr_eq_self (hnul m (by simp))]
    rcases List.mem_cons.1 hm with rfl | hm
    · rw [decide_eq_true rfl]
      rfl
    · have hne : m.1 ≠ key := by
        rintro rfl
        exact hnodup.1 (List.mem_map.2 ⟨_, hm, rfl⟩)
      rw [decide_eq_false hne]
      exact ih hm hnodup.2 fun k hk => hnul k (by simp [hk])

theorem childCount_array {items : List Value} (h : items.length < 2 ^ 31) :
    childCount (some (.array items)) = items.length := toInt_of_lt h

theorem map_range_getElem? {α β : Type} (l : List α) (g : Option α → β) :
    (List.range l.length).map (fun i => g l[i]?) = l.map fun x => g (some x) := by
  refine List.ext_getElem (by simp) fun i h₁ h₂ => ?_
  simp only [List.getElem_map, List.getElem_range]
  rw [List.getElem?_eq_getElem]

theorem decodeColumns_array {items : List Value} (h : items.length < 2 ^ 31) :
    decodeColumns (some (.array items)) = items.map fun v => decodeColumn (some v) := by
  rw [decodeColumns, childCount_array h, Int.toNat_natCast]
  exact map_range_getElem? items decodeColumn

theorem typeName_decodeColumn {dataType : Bytes} {v : Value} (h : IsColumn dataType v)
    (hnul : 0 ∉ dataType) : (decodeColumn (some v)).typeName = some dataType := by
  obtain ⟨ms, rfl, hms, hm⟩ := h
  show flJsonGetString _ _ = _
  rw [flJsonGetString, hms.get hm]
  exact congrArg some (cstr_eq_self hnul)

/-! ## Cells -/

theorem decodeCell_value (sqlType : SqlType) (cell : SentCell) :
    decodeCell sqlType (some cell.value) = cell.cell sqlType := by
  cases cell with
  | null => rfl
  | number lexeme => rfl
  | bool b => rfl
  | string cs nul =>
    show Cell.mk _ _ _ = Cell.mk _ _ _
    rw [cstr_eq_self (zero_notMem_utf8 nul)]

/-- Rows of one length that are laid out one after the other. -/
theorem getElem?_flatMap {α β : Type} {f : α → List β} {k : ℕ} {l : List α}
    (hf : ∀ x ∈ l, (f x).length = k) (r : ℕ) {c : ℕ} (hc : c < k) :
    (l.flatMap f)[r * k + c]? = l[r]?.bind fun x => (f x)[c]? := by
  induction l generalizing r with
  | nil => rfl
  | cons x l ih =>
    have hx := hf x (by simp)
    rw [List.flatMap_cons]
    cases r with
    | zero =>
      rw [Nat.zero_mul, Nat.zero_add, List.getElem?_append_left (by omega)]
      rfl
    | succ r =>
      have hle : (f x).length ≤ (r + 1) * k + c := by
        rw [hx, Nat.succ_mul]
        omega
      rw [List.getElem?_append_right hle]
      have hsub : (r + 1) * k + c - (f x).length = r * k + c := by
        rw [hx, Nat.succ_mul]
        omega
      rw [hsub, List.getElem?_cons_succ]
      exact ih (fun y hy => hf y (by simp [hy])) r

theorem decodes_decodeSet {set : SentSet} {v : Value} (h : IsSet set v) :
    Decodes set (decodeSet (some v)) := by
  obtain ⟨ms, columns, rfl, hms, hcolumns, htypes, hrows⟩ := h
  have hlen := htypes.length_eq
  have hcols : columns.length < 2 ^ 31 := hlen ▸ set.columns_lt
  let rows := set.rows.map fun row => Value.array (row.map SentCell.value)
  have hrowcount : childCount (some (.array rows)) = set.rows.length := by
    rw [childCount_array (by rw [List.length_map]; exact set.rows_lt), List.length_map]
  have hcolcount : childCount (some (.array columns)) = set.dataTypes.length := by
    rw [childCount_array hcols, hlen]
  -- the cells, with the lookups done
  have hset : decodeSet (some (.object ms)) =
      { columns := columns.map fun v => decodeColumn (some v)
        columnCount := set.dataTypes.length
        cells := decodeRows (some (.array rows)) (columns.map fun v => decodeColumn (some v))
        rowCount := set.rows.length } := by
    rw [decodeSet, hms.get hcolumns, hms.get hrows, decodeColumns_array hcols, hrowcount, hcolcount]
  have hrow : ∀ x ∈ List.range set.rows.length,
      ((columns.map fun v => decodeColumn (some v)).mapIdx fun c column =>
        decodeCell column.sqlType (flJsonAt (flJsonAt (some (.array rows)) x) c)).length =
      set.dataTypes.length := by
    intro x _
    rw [List.length_mapIdx, List.length_map, hlen]
  rw [hset]
  refine ⟨rfl, rfl, ?_, ?_⟩
  · dsimp only
    rw [decodeRows, hrowcount, Int.toNat_natCast, List.length_flatMap, List.map_congr_left hrow]
    simp
  · intro r row c cell hr hc
    have hclt : c < set.dataTypes.length := by
      rw [← set.rectangular row (List.mem_of_getElem? hr)]
      exact (List.getElem?_eq_some_iff.1 hc).1
    have hrlt : r < set.rows.length := (List.getElem?_eq_some_iff.1 hr).1
    have hcv : columns[c]? = some columns[c] := List.getElem?_eq_getElem (hlen ▸ hclt)
    refine ⟨decodeColumn (some columns[c]), ?_, ?_, ?_⟩
    · show (columns.map fun v => decodeColumn (some v))[c]? = _
      rw [List.getElem?_map, hcv]
      rfl
    · have hcolumn : IsColumn set.dataTypes[c] columns[c] := htypes.get hclt (hlen ▸ hclt)
      rw [List.getElem?_eq_getElem hclt]
      exact typeName_decodeColumn hcolumn (set.nul _ (List.getElem_mem hclt))
    · dsimp only
      rw [decodeRows, hrowcount, Int.toNat_natCast, getElem?_flatMap hrow r hclt,
        List.getElem?_range hrlt, Option.bind_some, List.getElem?_mapIdx, List.getElem?_map, hcv,
        Option.map_some, Option.map_some]
      have hat : flJsonAt (flJsonAt (some (.array rows)) r) c = some cell.value := by
        have hrowr : rows[r]? = some (.array (row.map SentCell.value)) := by
          rw [List.getElem?_map, hr]
          rfl
        show flJsonAt rows[r]? c = _
        rw [hrowr]
        show (row.map SentCell.value)[c]? = _
        rw [List.getElem?_map, hc]
        rfl
      rw [hat, decodeCell_value]

/-! ## The answer -/

/-- The answer to a successful execution is taken in, whatever the connection and the status. -/
theorem readReply_serialises {sets : List SentSet} {root : Value} {body : Bytes}
    (hroot : IsResponse sets root) (hbody : Serialises root body) (dbc : Dbc) (status : ℤ) :
    (readReply dbc (.answered status body)).1 = .answered (decodeResponse root) := by
  obtain ⟨ms, vs, rfl, hms, hsuccess, -⟩ := hroot
  have hbool : flJsonGetBool (some (.object ms)) (lit "success") false = true := by
    rw [flJsonGetBool, hms.get hsuccess]
  have hkeeps : refusesSession dbc.sessionId.isSome status (.object ms) = false := by
    rw [refusesSession, hbool, Bool.not_true, Bool.and_false, Bool.false_and]
  simp only [readReply, flJsonParse_serialises hbody, hkeeps]
  rfl

theorem decodeResponse_object {ms : List (Bytes × Value)} {vs : List Value} (hms : Record ms)
    (hsuccess : (lit "success", .bool true) ∈ ms) (hsets : (lit "resultSets", .array vs) ∈ ms) :
    (decodeResponse (.object ms)).errorMessage = none ∧
      (decodeResponse (.object ms)).sets =
        (List.range (toInt vs.length).toNat).map fun i => decodeSet vs[i]? := by
  have hbool : flJsonGetBool (some (.object ms)) (lit "success") false = true := by
    rw [flJsonGetBool, hms.get hsuccess]
  have hchildren : childCount (some (.array vs)) = toInt vs.length := rfl
  rw [decodeResponse, hbool, hms.get hsets, Bool.not_true, if_neg (by decide)]
  dsimp only
  rw [hchildren]
  exact ⟨rfl, rfl⟩

/-- The result sets the engine sent arrive in their order, with every cell as it was sent. -/
theorem readReply_sets {sets : List SentSet} (hcount : sets.length < 2 ^ 31) {root : Value}
    {body : Bytes} (hroot : IsResponse sets root) (hbody : Serialises root body) (dbc : Dbc)
    (status : ℤ) :
    ∃ response, (readReply dbc (.answered status body)).1 = .answered response ∧
      response.errorMessage = none ∧ List.Forall₂ Decodes sets response.sets := by
  refine ⟨decodeResponse root, readReply_serialises hroot hbody dbc status, ?_⟩
  obtain ⟨ms, vs, rfl, hms, hsuccess, hsets, hvs⟩ := hroot
  obtain ⟨herror, hdecoded⟩ := decodeResponse_object hms hsuccess hsets
  refine ⟨herror, ?_⟩
  have hlen : vs.length < 2 ^ 31 := hvs.length_eq ▸ hcount
  rw [hdecoded, toInt_of_lt hlen, Int.toNat_natCast, map_range_getElem? vs decodeSet]
  rw [List.forall₂_map_right_iff]
  exact hvs.imp fun _ _ h => decodes_decodeSet h

/-- A character that needs no escape. -/
def isPlainChar (c : Char) : Bool := 0x20 ≤ c.toNat && c ≠ '"' && c ≠ '\\'

theorem stringOf_plain (s : String) (h : s.toList.all isPlainChar = true)
    (hs : lit s = utf8 s.toList) : StringOf (lit s) (lit s) := by
  refine ⟨s.toList, hs, hs ▸ StringText.plain fun c hc => ?_⟩
  have hplain := List.all_eq_true.1 h c hc
  simpa [isPlainChar, and_assoc] using hplain

section

variable {n : ℕ} {s t : Bytes} {a b : Bytes × Value} {k l : Bytes} {v w : Value}

theorem spells_object_pair (ha : Member StringOf (Spells StringOf n) a s)
    (hb : Member StringOf (Spells StringOf n) b t) :
    Spells StringOf (n + 1) (.object [a, b]) (ch '\x7b' :: ((s ++ ch ',' :: t) ++ [ch '\x7d'])) :=
  ⟨_, rfl, Or.inr (.cons ha (.one hb))⟩

theorem spells_object_single (ha : Member StringOf (Spells StringOf n) a s) :
    Spells StringOf (n + 1) (.object [a]) (ch '\x7b' :: (s ++ [ch '\x7d'])) :=
  ⟨_, rfl, Or.inr (.one ha)⟩

theorem spells_array_single (hv : Spells StringOf n v s) :
    Spells StringOf (n + 1) (.array [v]) (ch '[' :: (s ++ [ch ']'])) :=
  ⟨_, rfl, Or.inr (.one (.self hv))⟩

theorem member_plain (key : String) (h : key.toList.all isPlainChar = true)
    (hs : lit key = utf8 key.toList) (hv : Spells StringOf n v s) :
    Member StringOf (Spells StringOf n) (lit key, v) (quoted (lit key) ++ ch ':' :: s) :=
  .self (stringOf_plain key h hs) hv

theorem record_pair (hne : k ≠ l) (hk : 0 ∉ k) (hl : 0 ∉ l) : Record [(k, v), (l, w)] :=
  ⟨by simpa using hne, by simp [hk, hl]⟩

end

/-- A set with a `BOOLEAN` column and the row `true`, and the record that holds it. -/
def booleanSet : SentSet where
  dataTypes := [lit "BOOLEAN"]
  rows := [[.bool true]]
  nul := by decide
  rectangular := by decide
  columns_lt := by decide
  rows_lt := by decide
  cells_lt := by decide

def booleanRecord : Value :=
  .object [(lit "columns", .array [.object [(lit "dataType", .string (lit "BOOLEAN"))]]),
    (lit "rows", .array [.array [.bool true]])]

theorem isSet_booleanSet : IsSet booleanSet booleanRecord := by
  refine ⟨_, _, rfl, record_pair (by decide) (by decide) (by decide), List.mem_cons_self .., ?_,
    List.mem_cons_of_mem _ (List.mem_singleton.2 rfl)⟩
  exact .cons ⟨_, rfl, ⟨by simp, by decide⟩, List.mem_singleton.2 rfl⟩ .nil

theorem spells_booleanRecord (n : ℕ) : ∃ s, Spells StringOf (n + 3) booleanRecord s := by
  have htype : Spells StringOf n (.string (lit "BOOLEAN")) (quoted (lit "BOOLEAN")) :=
    spells_string_iff.2 ⟨_, stringOf_plain "BOOLEAN" (by decide) (by decide), rfl⟩
  have hcolumn := spells_object_single (member_plain "dataType" (by decide) (by decide) htype)
  have htrue : Spells StringOf n (.bool true) (lit "true") := spells_bool_iff.2 rfl
  have hrows := spells_array_single (spells_array_single htrue)
  exact ⟨_, spells_object_pair
    (member_plain "columns" (by decide) (by decide) (spells_array_single hcolumn))
    (member_plain "rows" (by decide) (by decide) hrows)⟩

/-- A successful answer with `n` such sets. -/
def booleanAnswer (n : ℕ) : Value :=
  .object [(lit "success", .bool true), (lit "resultSets", .array (List.replicate n booleanRecord))]

theorem isResponse_booleanAnswer (n : ℕ) :
    IsResponse (List.replicate n booleanSet) (booleanAnswer n) := by
  refine ⟨_, _, rfl, record_pair (by decide) (by decide) (by decide), List.mem_cons_self ..,
    List.mem_cons_of_mem _ (List.mem_singleton.2 rfl), ?_⟩
  induction n with
  | zero => exact .nil
  | succ n ih => exact .cons isSet_booleanSet ih

theorem exists_serialises_booleanAnswer (n : ℕ) :
    ∃ body, Serialises (booleanAnswer (n + 1)) body := by
  have hsets : ∃ s, Spells StringOf 63 (.array (List.replicate (n + 1) booleanRecord)) s := by
    apply exists_spells_array
    intro v hv
    rw [List.eq_of_mem_replicate hv]
    exact spells_booleanRecord 59
  obtain ⟨s, hs⟩ := hsets
  exact ⟨_, .self (spells_object_pair (member_plain "success" (by decide) (by decide)
    (spells_bool_iff.2 rfl)) (member_plain "resultSets" (by decide) (by decide) hs))⟩

theorem readReply_sets_boolean :
    ∃ body, Serialises (booleanAnswer 1) body ∧
      ∃ response, (readReply allocDbc (.answered 200 body)).1 = .answered response ∧
        response.errorMessage = none ∧
        List.Forall₂ Decodes (List.replicate 1 booleanSet) response.sets := by
  obtain ⟨body, hbody⟩ := exists_serialises_booleanAnswer 0
  exact ⟨body, hbody,
    readReply_sets (by decide) (isResponse_booleanAnswer 1) hbody allocDbc 200⟩

/-- Where there are more sets than an `int` counts, none arrives. -/
theorem readReply_too_many_sets :
    ∃ body, IsResponse (List.replicate (2 ^ 31) booleanSet) (booleanAnswer (2 ^ 31)) ∧
      Serialises (booleanAnswer (2 ^ 31)) body ∧
      ∃ response, (readReply allocDbc (.answered 200 body)).1 = .answered response ∧
        response.sets.length ≠ (List.replicate (2 ^ 31) booleanSet).length := by
  obtain ⟨body, hbody⟩ := exists_serialises_booleanAnswer (2 ^ 31 - 1)
  have hroot := isResponse_booleanAnswer (2 ^ 31 - 1 + 1)
  have hcount : 2 ^ 31 - 1 + 1 = 2 ^ 31 := by decide
  rw [hcount] at hbody hroot
  refine ⟨body, hroot, hbody, _, readReply_serialises hroot hbody allocDbc 200, ?_⟩
  have hsets : (decodeResponse (booleanAnswer (2 ^ 31))).sets = _ :=
    (decodeResponse_object (record_pair (by decide) (by decide) (by decide)) (List.mem_cons_self ..)
      (List.mem_cons_of_mem _ (List.mem_singleton.2 rfl))).2
  rw [hsets, List.length_map, List.length_range, List.length_replicate, List.length_replicate]
  decide

end FrostlakeOdbc
