import FrostlakeOdbc.ExecuteProof
import FrostlakeOdbc.Strbuf

/-!
# What is built in a growable buffer

The functions over the heap build the texts that the model of the driver takes them to build. A buffer
stays within its block however it grows, and a function fails on its own account only where an
allocation did; what it had allocated is given back then (`buildRequestJson_onHeap`,
`substituteParams_onHeap`).
-/

namespace FrostlakeOdbc

open CString Exchange Client

abbrev Blocks := ℕ → Option Bytes

/-- No block of 2^62 bytes fits into the address space of a machine. -/
def blockLimit : ℕ := 2 ^ 62

abbrev allocator : Monitor (HeapCall UInt8) (Allocated UInt8) (Heap UInt8) :=
  heapMonitor UInt8 blockLimit

/-! ## The buffer -/

/-- A buffer that holds a text, next to the blocks of `rest`: nothing is allocated yet, or the text
stands with its NUL in a block of the buffer's own, of at most twice the size that is needed. -/
inductive Buffered (rest : Blocks) : FlStrbuf → Bytes → Blocks → Prop where
  | init : Buffered rest flStrbufInit [] rest
  | block {buf : FlStrbuf} {text b : Bytes} {blocks : Blocks} (hapart : Apart rest buf.data b blocks)
      (hlength : buf.length = text.length) (hcapacity : buf.capacity = b.length)
      (htext : text ++ [0] <+: b) (hlimit : b.length < blockLimit)
      (hsize : b.length ≤ 256 ∨ b.length < 2 * (text.length + 1)) : Buffered rest buf text blocks

/-- A buffer with room for `extra` bytes more, and the NUL. -/
structure Room (rest : Blocks) (buf : FlStrbuf) (text b : Bytes) (extra : ℕ) (blocks : Blocks) :
    Prop where
  apart : Apart rest buf.data b blocks
  length : buf.length = text.length
  capacity : buf.capacity = b.length
  begins : text <+: b
  limit : b.length < blockLimit
  room : text.length + extra + 1 ≤ b.length
  size : b.length ≤ 256 ∨ b.length < 2 * (text.length + extra + 1)

/-- The doubling comes to its end, at less than twice what is needed. -/
theorem exists_doubleUntil {needed : ℕ} (hneeded : needed ≤ 2 ^ 63) (fuel : ℕ) {wanted : ℕ}
    (hpos : 0 < wanted) (hfuel : needed ≤ wanted * 2 ^ fuel) :
    ∃ w, doubleUntil needed fuel wanted = some w ∧ needed ≤ w ∧ wanted ≤ w ∧
      (w = wanted ∨ w < 2 * needed) := by
  induction fuel generalizing wanted with
  | zero =>
    have hle : needed ≤ wanted := by omega
    exact ⟨wanted, if_pos hle, hle, le_rfl, .inl rfl⟩
  | succ fuel ih =>
    unfold doubleUntil
    split
    · next hle => exact ⟨wanted, rfl, hle, le_rfl, .inl rfl⟩
    · next hlt =>
      -- what is still too small can be doubled within a `size_t`
      have hmod : wanted * 2 % sizeValues = wanted * 2 := by
        apply Nat.mod_eq_of_lt
        unfold sizeValues
        omega
      rw [hmod]
      have hstep : needed ≤ wanted * 2 * 2 ^ fuel := by
        rw [Nat.mul_assoc, ← Nat.pow_succ']
        exact hfuel
      obtain ⟨w, hw, hle, hge, hbound⟩ := ih (by omega) hstep
      refine ⟨w, hw, hle, by omega, .inr ?_⟩
      omega

section

variable {rest : Blocks} {buf : FlStrbuf} {text : Bytes} {m : Heap UInt8}

/-- What `strbuf_reserve` comes to. -/
inductive Reserved (rest : Blocks) (text : Bytes) (extra : ℕ) : Ended × FlStrbuf → Heap UInt8 → Prop where
  | ok {buf : FlStrbuf} {b : Bytes} {m : Heap UInt8} (hroom : Room rest buf text b extra m.blocks)
      (hm : m.exhausted = false) : Reserved rest text extra (.ok, buf) m
  | exhausted {buf : FlStrbuf} {m : Heap UInt8} (hbuf : Buffered rest buf text m.blocks)
      (hm : m.exhausted = true) : Reserved rest text extra (.failed none, buf) m

theorem holds_strbufReserve (hnull : rest 0 = none) (hbuf : Buffered rest buf text m.blocks)
    (hm : m.exhausted = false) {extra : ℕ} (hextra : extra < 2 ^ 62) :
    allocator.Holds (strbufReserve extra buf) (Reserved rest text extra) m := by
  unfold strbufReserve
  cases hbuf with
  | init =>
    have hneeded : (flStrbufInit.length + extra + 1) % sizeValues = extra + 1 := by
      rw [Nat.mod_eq_of_lt] <;> simp [flStrbufInit, sizeValues]
      omega
    have hsmall : extra + 1 ≤ 2 ^ 63 := by omega
    have hfirstPos : 0 < 256 := by decide
    obtain ⟨w, hw, hle, hge, hbound⟩ := exists_doubleUntil hsmall 64 hfirstPos (by omega)
    have hlt : ¬extra + 1 ≤ flStrbufInit.capacity := by simp [flStrbufInit]
    have hfirst : (if flStrbufInit.capacity ≠ 0 then flStrbufInit.capacity else 256) = 256 := rfl
    dsimp only
    rw [hneeded, if_neg hlt, hfirst, hw]
    apply (holds_malloc hnull w).bind
    intro grown m' hgrown
    by_cases haddress : grown.address = 0
    · rw [if_pos haddress] at hgrown ⊢
      rw [hgrown]
      exact Monitor.holds_pure (.exhausted .init rfl)
    · rw [if_neg haddress] at hgrown ⊢
      obtain ⟨hlimit, hlength, hexhausted, hapart⟩ := hgrown
      refine Monitor.holds_pure (.ok ⟨hapart, rfl, hlength.symm, List.nil_prefix, ?_, ?_, ?_⟩ ?_)
      · rwa [hlength]
      · rw [hlength, List.length_nil]
        omega
      · rw [hlength, List.length_nil]
        omega
      · rw [hexhausted, hm]
  | @block _ _ b _ hapart hlength hcapacity htext hlimit hsize =>
    have htextLength := htext.length_le
    rw [List.length_append, List.length_singleton] at htextLength
    have hneeded : (buf.length + extra + 1) % sizeValues = text.length + extra + 1 := by
      rw [hlength]
      apply Nat.mod_eq_of_lt
      unfold sizeValues
      unfold blockLimit at hlimit
      omega
    have hprefix : text <+: b := (List.prefix_append text [0]).trans htext
    dsimp only
    rw [hneeded]
    split
    · next hle =>
      rw [hcapacity] at hle
      refine Monitor.holds_pure (.ok ⟨hapart, hlength, hcapacity, hprefix, hlimit, hle, ?_⟩ hm)
      omega
    · next hgt =>
      have hcapacityPos : buf.capacity ≠ 0 := by omega
      unfold blockLimit at hlimit
      have hsmall : text.length + extra + 1 ≤ 2 ^ 63 := by omega
      obtain ⟨w, hw, hle, hge, hbound⟩ :=
        exists_doubleUntil hsmall 64 (Nat.pos_of_ne_zero hcapacityPos) (by omega)
      rw [if_pos hcapacityPos, hw]
      rw [hcapacity] at hge hbound hgt
      apply (holds_realloc hapart hge).bind
      intro grown m' hgrown
      by_cases haddress : grown.address = 0
      · rw [if_pos haddress] at hgrown ⊢
        rw [hgrown]
        exact Monitor.holds_pure (.exhausted (.block hapart hlength hcapacity htext hlimit hsize) rfl)
      · rw [if_neg haddress] at hgrown ⊢
        obtain ⟨hlimit', hlength', hexhausted, hkept, hapart'⟩ := hgrown
        refine Monitor.holds_pure (.ok
          ⟨hapart', hlength, hlength'.symm, hprefix.trans hkept, ?_, ?_, ?_⟩ ?_)
        · rwa [hlength']
        · rwa [hlength']
        · rw [hlength']
          omega
        · rw [hexhausted, hm]

theorem Buffered.holds_free (hnull : rest 0 = none) (hbuf : Buffered rest buf text m.blocks) :
    allocator.Holds (flStrbufFree buf)
      (fun _ m' => m'.exhausted = m.exhausted ∧ m'.blocks = rest) m := by
  cases hbuf with
  | init =>
    apply (holds_free_null hnull).bind
    rintro _ m' rfl
    exact Monitor.holds_pure ⟨rfl, rfl⟩
  | block hapart => exact (Exchange.holds_free hapart).bind fun _ _ h => Monitor.holds_pure h

end

/-! ## Building -/

/-- What a function that works on a buffer with `text` comes to, where it is to add `r`: only a failed
allocation makes it fail on its own account. -/
inductive Grew (rest : Blocks) (text : Bytes) (r : Except Diag Bytes) :
    Ended × FlStrbuf → Heap UInt8 → Prop where
  | ok {buf : FlStrbuf} {t : Bytes} {m : Heap UInt8} (hr : r = .ok t)
      (hbuf : Buffered rest buf (text ++ t) m.blocks) (hm : m.exhausted = false) :
      Grew rest text r (.ok, buf) m
  | exhausted {buf : FlStrbuf} {s : Bytes} {m : Heap UInt8} (hbuf : Buffered rest buf s m.blocks)
      (hm : m.exhausted = true) : Grew rest text r (.failed none, buf) m
  | refused {diag : Diag} {buf : FlStrbuf} {s : Bytes} {m : Heap UInt8} (hr : r = .error diag)
      (hbuf : Buffered rest buf s m.blocks) (hm : m.exhausted = false) :
      Grew rest text r (.failed (some diag), buf) m

/-- `p` adds `r` to a buffer, whatever it holds and whatever else is on the heap. -/
def Builds (p : Building) (r : Except Diag Bytes) : Prop :=
  ∀ ⦃rest : Blocks⦄ ⦃buf : FlStrbuf⦄ ⦃text : Bytes⦄ ⦃m : Heap UInt8⦄, rest 0 = none →
    Buffered rest buf text m.blocks → m.exhausted = false →
      allocator.Holds (p buf) (Grew rest text r) m

theorem builds_flStrbufAppendLen {text : Bytes} (hlength : text.length < 2 ^ 62) :
    Builds (flStrbufAppendLen text) (.ok text) := by
  intro rest buf old m hnull hbuf hm
  apply (holds_strbufReserve hnull hbuf hm hlength).bind
  rintro ⟨ended, buf'⟩ m' hreserved
  cases hreserved with
  | exhausted hbuf' hm' => exact Monitor.holds_pure (.exhausted hbuf' hm')
  | @ok _ b _ hroom hm' =>
    dsimp only
    have hroomLe := hroom.room
    have hfits : buf'.length + text.length ≤ b.length := by
      rw [hroom.length]
      omega
    apply (holds_store hroom.apart hfits).bind
    rintro _ m₁ ⟨hm₁, hapart₁⟩
    have htext₁ := append_prefix_overwrite hroom.begins text
    rw [← hroom.length] at htext₁
    -- the NUL goes right behind the text
    have hlength₁ : (buf'.length + text.length) % sizeValues = (old ++ text).length := by
      rw [hroom.length, List.length_append]
      apply Nat.mod_eq_of_lt
      have hlimit := hroom.limit
      unfold blockLimit at hlimit
      unfold sizeValues
      omega
    have hb₁ := length_overwrite hfits
    have hfits₁ : (old ++ text).length + [(0 : UInt8)].length ≤
        (overwrite b buf'.length text).length := by
      rw [hb₁, List.length_append, List.length_singleton]
      omega
    rw [hlength₁]
    apply (holds_store hapart₁ hfits₁).bind
    rintro _ m₂ ⟨hm₂, hapart₂⟩
    have hb₂ := length_overwrite hfits₁
    refine Monitor.holds_pure (.ok rfl (.block hapart₂ rfl ?_ (append_prefix_overwrite htext₁ [0]) ?_ ?_)
      ?_)
    · rw [hb₂, hb₁]
      exact hroom.capacity
    · rw [hb₂, hb₁]
      exact hroom.limit
    · rw [hb₂, hb₁, List.length_append]
      exact hroom.size
    · rw [hm₂, hm₁, hm']

theorem builds_flStrbufAppend {text : Bytes} (hclean : 0 ∉ text) (hlength : text.length < 2 ^ 62) :
    Builds (flStrbufAppend text) (.ok text) := by
  unfold flStrbufAppend
  rw [cstr_eq_self hclean]
  exact builds_flStrbufAppendLen hlength

theorem builds_done : Builds .done (.ok []) := by
  intro rest buf text m _ hbuf hm
  refine Monitor.holds_pure (.ok rfl ?_ hm)
  rwa [List.append_nil]

theorem builds_fails (diag : Diag) : Builds (.fails diag) (.error diag) :=
  fun _ _ _ _ _ hbuf hm => Monitor.holds_pure (.refused rfl hbuf hm)

section

variable {p q : Building} {s : Bytes} {r : Except Diag Bytes}

theorem Grew.append {rest : Blocks} {text : Bytes} {a : Ended × FlStrbuf} {m : Heap UInt8}
    (h : Grew rest (text ++ s) r a m) : Grew rest text (r.map (s ++ ·)) a m := by
  cases h with
  | ok hr hbuf hm =>
    rw [List.append_assoc] at hbuf
    exact .ok (by rw [hr]; rfl) hbuf hm
  | exhausted hbuf hm => exact .exhausted hbuf hm
  | refused hr hbuf hm => exact .refused (by rw [hr]; rfl) hbuf hm

theorem Builds.andThen (hp : Builds p (.ok s)) (hq : Builds q r) :
    Builds (p.andThen q) (r.map (s ++ ·)) := by
  intro rest buf text m hnull hbuf hm
  apply (hp hnull hbuf hm).bind
  rintro ⟨ended, buf'⟩ m' hgrew
  cases hgrew with
  | ok hr hbuf' hm' =>
    cases hr
    exact (hq hnull hbuf' hm').mono fun _ _ h => h.append
  | exhausted hbuf' hm' => exact Monitor.holds_pure (.exhausted hbuf' hm')
  | refused hr hbuf' hm' => cases hr

theorem Builds.andThen_error {diag : Diag} (hp : Builds p (.error diag)) :
    Builds (p.andThen q) (.error diag) := by
  intro rest buf text m hnull hbuf hm
  apply (hp hnull hbuf hm).bind
  rintro ⟨ended, buf'⟩ m' hgrew
  cases hgrew with
  | ok hr hbuf' hm' => cases hr
  | exhausted hbuf' hm' => exact Monitor.holds_pure (.exhausted hbuf' hm')
  | refused hr hbuf' hm' => exact Monitor.holds_pure (.refused hr hbuf' hm')

theorem Builds.andThen_ok {t : Bytes} (hp : Builds p (.ok s)) (hq : Builds q (.ok t)) :
    Builds (p.andThen q) (.ok (s ++ t)) := hp.andThen hq

end

theorem builds_each {p : UInt8 → Building} {f : UInt8 → Bytes} (h : ∀ c, Builds (p c) (.ok (f c)))
    (cs : Bytes) : Builds (.each p cs) (.ok (cs.flatMap f)) := by
  induction cs with
  | nil => exact builds_done
  | cons c cs ih =>
    rw [List.flatMap_cons]
    exact (h c).andThen_ok ih

/-! ## A text in a buffer of its own -/

/-- What building a text comes to: it is handed over in a block of its own, or nothing is left of it,
because an allocation failed or with the record that is to be set. -/
inductive Built (blocks : Blocks) (r : Except Diag Bytes) : Ended × ℕ → Heap UInt8 → Prop where
  | text {buf : FlStrbuf} {text : Bytes} {m : Heap UInt8} (hr : r = .ok text)
      (hbuf : Buffered blocks buf text m.blocks) (hm : m.exhausted = false) :
      Built blocks r (.ok, buf.data) m
  | exhausted : Built blocks r (.failed none, 0) ⟨blocks, true⟩
  | refused {diag : Diag} (hr : r = .error diag) : Built blocks r (.failed (some diag), 0) ⟨blocks, false⟩

theorem Builds.holds_run {p : Building} {r : Except Diag Bytes} (h : Builds p r) {blocks : Blocks}
    (hnull : blocks 0 = none) : allocator.Holds p.run (Built blocks r) ⟨blocks, false⟩ := by
  apply (h hnull .init rfl).bind
  rintro ⟨ended, buf⟩ m hgrew
  cases hgrew with
  | ok hr hbuf hm => exact Monitor.holds_pure (.text hr hbuf hm)
  | exhausted hbuf hm =>
    apply (hbuf.holds_free hnull).bind
    rintro _ ⟨blocks', exhausted⟩ ⟨hm', rfl⟩
    obtain rfl : exhausted = true := hm'.trans hm
    exact Monitor.holds_pure .exhausted
  | refused hr hbuf hm =>
    apply (hbuf.holds_free hnull).bind
    rintro _ ⟨blocks', exhausted⟩ ⟨hm', rfl⟩
    obtain rfl : exhausted = false := hm'.trans hm
    exact Monitor.holds_pure (.refused hr)

/-! ## Requests -/

/-- A short text without NUL bytes. -/
theorem builds_short (text : Bytes) (h : 0 ∉ text ∧ text.length < 64) :
    Builds (flStrbufAppend text) (.ok text) :=
  builds_flStrbufAppend h.1 (by omega)

theorem short_escapeByte (c : UInt8) : 0 ∉ escapeByte c ∧ (escapeByte c).length < 64 := by
  apply forall_byte (P := fun c => 0 ∉ escapeByte c ∧ (escapeByte c).length < 64)
  decide +kernel

theorem builds_flStrbufAppendJsonString (text : Bytes) :
    Builds (OnHeap.flStrbufAppendJsonString text) (.ok (flStrbufAppendJsonString [] text)) := by
  have hquote : Builds (flStrbufAppendLen (lit "\"")) (.ok (lit "\"")) :=
    builds_flStrbufAppendLen (by decide)
  have hbody := builds_each (fun c => builds_short _ (short_escapeByte c)) (cstr text)
  have hall := hquote.andThen_ok (hbody.andThen_ok hquote)
  rw [← List.append_assoc] at hall
  exact hall

theorem short_snprintf {size : ℕ} (hsize : size ≤ 64) {text : Bytes} (hclean : 0 ∉ text)
    (hpos : 0 < size) : 0 ∉ snprintf size text ∧ (snprintf size text).length < 64 := by
  refine ⟨fun h => hclean (List.mem_of_mem_take h), ?_⟩
  have hle := List.length_take_le (size - 1) text
  unfold snprintf
  omega

theorem builds_buildRequestJson (dbc : Dbc) (sql : Bytes) (count : ℤ) {blocks : Blocks}
    (hnull : blocks 0 = none) : allocator.Holds (OnHeap.buildRequestJson dbc sql count)
      (Built blocks (.ok (buildRequestJson dbc sql count))) ⟨blocks, false⟩ := by
  have hhead := builds_short (lit "\x7b\"sql\":") (by decide)
  have htail := builds_short (lit ",\"autoCommit\":true\x7d") (by decide)
  have hcount : Builds (if 0 ≤ count then
      flStrbufAppend (snprintf 48 (lit ",\"multiStatementCount\":" ++ intText count)) else .done)
      (.ok (if 0 ≤ count then snprintf 48 (lit ",\"multiStatementCount\":" ++ intText count)
        else [])) := by
    have hfixed : 0 ∉ lit ",\"multiStatementCount\":" := by decide
    split
    · apply builds_short _ (short_snprintf (by omega) _ (by omega))
      rw [List.mem_append, or_iff_right hfixed]
      exact zero_notMem_intText count
    · exact builds_done
  have hsql := builds_flStrbufAppendJsonString sql
  unfold OnHeap.buildRequestJson buildRequestJson
  cases dbc.sessionId with
  | none =>
    have hall := (hhead.andThen_ok (hsql.andThen_ok (builds_done.andThen_ok
      (hcount.andThen_ok htail)))).holds_run hnull
    convert hall using 3
    split_ifs <;> simp [flStrbufAppendJsonString]
  | some id =>
    have hrequire : Builds (if dbc.tracksSessions = 1 then
        flStrbufAppend (lit ",\"requireSession\":true") else .done)
        (.ok (if dbc.tracksSessions = 1 then lit ",\"requireSession\":true" else [])) := by
      split
      · exact builds_short _ (by decide)
      · exact builds_done
    have hsession := (builds_short (lit ",\"sessionId\":") (by decide)).andThen_ok
      ((builds_flStrbufAppendJsonString id).andThen_ok hrequire)
    have hall := (hhead.andThen_ok (hsql.andThen_ok (hsession.andThen_ok
      (hcount.andThen_ok htail)))).holds_run hnull
    convert hall using 3
    split_ifs <;> simp [flStrbufAppendJsonString]

/-! ## Parameters -/

theorem length_printed_lt (text : Bytes) : (snprintf paramTextSize text).length < 64 := by
  have hle := List.length_take_le (paramTextSize - 1) text
  unfold snprintf
  exact Nat.lt_succ_of_le hle

theorem builds_appendNumber {text : Bytes} (h : text.length < 2 ^ 62) :
    Builds (OnHeap.appendNumber text) (.ok (appendNumber text)) := by
  unfold OnHeap.appendNumber appendNumber
  split
  · rw [List.append_assoc]
    exact (builds_short _ (by decide)).andThen_ok
      ((builds_flStrbufAppendLen h).andThen_ok (builds_short _ (by decide)))
  · exact builds_flStrbufAppendLen h

theorem length_escapeStringByte_le (c : UInt8) : (escapeStringByte c).length ≤ 2 := by
  unfold escapeStringByte
  split_ifs <;> simp

theorem builds_appendStringLiteral (text : Bytes) :
    Builds (OnHeap.appendStringLiteral text) (.ok (appendStringLiteral text)) := by
  have hbody := builds_each (fun c => builds_flStrbufAppendLen
    ((length_escapeStringByte_le c).trans_lt (by omega))) text
  unfold appendStringLiteral
  rw [List.append_assoc]
  exact (builds_short _ (by decide)).andThen_ok (hbody.andThen_ok (builds_short _ (by decide)))

theorem builds_appendBinaryLiteral (bytes : Bytes) :
    Builds (OnHeap.appendBinaryLiteral bytes) (.ok (appendBinaryLiteral bytes)) := by
  have hpair : ∀ c, (hexByte c).length < 2 ^ 62 := fun c => by simp [hexByte]
  have hbody := builds_each (fun c => builds_flStrbufAppendLen (hpair c)) bytes
  unfold appendBinaryLiteral
  rw [List.append_assoc]
  exact (builds_short _ (by decide)).andThen_ok (hbody.andThen_ok (builds_short _ (by decide)))

theorem builds_appendCharLiteral (sqlType : SqlType) {text : Bytes} (h : text.length < 2 ^ 62) :
    Builds (OnHeap.appendCharLiteral sqlType text) (appendCharLiteral sqlType text) := by
  have hstring := builds_appendStringLiteral text
  have hcast : ∀ cast : Bytes, 0 ∉ cast ∧ cast.length < 64 →
      Builds ((OnHeap.appendStringLiteral text).andThen (flStrbufAppend cast))
        (.ok (appendStringLiteral text ++ cast)) :=
    fun cast hshort => hstring.andThen_ok (builds_short cast hshort)
  unfold OnHeap.appendCharLiteral
  split_ifs with hdate htime hstamp hnumeric hnumber
  · subst hdate
    exact hcast _ (by decide)
  · subst htime
    exact hcast _ (by decide)
  · subst hstamp
    exact hcast _ (by decide)
  · unfold appendCharLiteral
    rw [if_pos hnumeric, if_pos hnumber]
    exact builds_appendNumber h
  · unfold appendCharLiteral
    rw [if_pos hnumeric, if_neg hnumber]
    exact builds_fails _
  · have hnone : sqlType.cast = [] := by
      cases sqlType <;> first | rfl | contradiction
    unfold appendCharLiteral
    rw [if_neg hnumeric, hnone, List.append_nil]
    exact hstring

/-- A value that fits into the address space. -/
def CValue.Sized : CValue → Prop
  | .char memory => memory.length < 2 ^ 62
  | _ => True

theorem length_bufferText_le (memory : Bytes) (length : ℤ) :
    (bufferText memory length).length ≤ memory.length := by
  unfold bufferText
  split
  · exact (List.takeWhile_prefix _).length_le
  · exact List.length_take_le' _ _

theorem builds_appendValueLiteral (sqlType : SqlType) (length : ℤ) {value : CValue}
    (h : value.Sized) :
    Builds (OnHeap.appendValueLiteral sqlType length value)
      (appendValueLiteral sqlType length value) := by
  have hsigned : ∀ text, Builds (OnHeap.appendNumber (printedNumber text))
      (.ok (appendNumber (printedNumber text))) := fun text =>
    builds_appendNumber ((length_printed_lt text).trans (by omega))
  have hunsigned : ∀ n, Builds (flStrbufAppend (printedNumber (natText n)))
      (.ok (printedNumber (natText n))) := by
    intro n
    refine builds_short _ ⟨zero_notMem_printedNumber fun hmem => ?_, length_printed_lt _⟩
    exact absurd (isDigit_of_mem_natText hmem) (by decide)
  have hquoted : ∀ s t, (∀ c ∈ s, isDateChar c = true) → 0 ∉ t →
      Builds (flStrbufAppend (snprintf paramTextSize (lit "'" ++ s ++ t)))
        (.ok (snprintf paramTextSize (lit "'" ++ s ++ t))) := fun s t hs ht =>
    builds_short _ ⟨zero_notMem_printedString hs ht, length_printed_lt _⟩
  cases value with
  | char memory =>
    exact builds_appendCharLiteral sqlType ((length_bufferText_le memory length).trans_lt h)
  | wchar | other => exact builds_fails _
  | slong n | sshort n | stinyint n | sbigint n => exact hsigned _
  | float printed | double printed => exact hsigned _
  | ulong n | ushort n | utinyint n | ubigint n => exact hunsigned _
  | bit n =>
    exact builds_short _ (by split_ifs <;> decide)
  | binary memory => exact builds_appendBinaryLiteral _
  | date year month day => exact hquoted _ _ (dateChar_dateText year month day) (by decide)
  | time hour minute second => exact hquoted _ _ (dateChar_timeText hour minute second) (by decide)
  | timestamp year month day hour minute second fraction =>
    have hstamp := hquoted _ (lit "'::TIMESTAMP_NTZ")
      (dateChar_timestamp year month day hour minute second fraction.toNat) (by decide)
    unfold OnHeap.appendValueLiteral appendValueLiteral
    simp only [List.append_assoc] at hstamp ⊢
    exact hstamp

theorem builds_appendParamLiteral {param : BoundParam} (h : ∀ value ∈ param.buffer, value.Sized) :
    Builds (OnHeap.appendParamLiteral param) (appendParamLiteral param) := by
  have hnull : Builds (flStrbufAppend (lit "NULL")) (.ok (lit "NULL")) := builds_short _ (by decide)
  unfold OnHeap.appendParamLiteral appendParamLiteral
  split
  · exact builds_fails _
  · cases hbuffer : param.buffer with
    | none => exact hnull
    | some value =>
      dsimp only
      split_ifs
      · exact hnull
      · exact builds_fails _
      · exact builds_fails _
      · exact builds_fails _
      · exact builds_appendValueLiteral _ _ (h value hbuffer)

/-! ## Substitution -/

theorem builds_substituteParamsFrom {fuel : ℕ} {params : List BoundParam} {sql : Bytes}
    (hparams : ∀ param ∈ params, ∀ value ∈ param.buffer, value.Sized) (hsql : sql.length < 2 ^ 62) :
    Builds (OnHeap.substituteParamsFrom fuel params sql) (substituteParamsFrom fuel params sql) := by
  induction fuel generalizing params sql with
  | zero => exact builds_done
  | succ fuel ih =>
    cases sql with
    | nil => exact builds_done
    | cons c rest =>
      rw [List.length_cons] at hsql
      have hrest : rest.length < 2 ^ 62 := by omega
      unfold OnHeap.substituteParamsFrom substituteParamsFrom
      cases flSqlSkip (c :: rest) with
      | some k =>
        have hpiece : ((c :: rest).take k).length < 2 ^ 62 :=
          (List.length_take_le' _ _).trans_lt hsql
        refine (builds_flStrbufAppendLen hpiece).andThen (ih hparams ?_)
        rw [List.length_drop, List.length_cons]
        omega
      | none =>
        dsimp only
        split
        · cases params with
          | nil => exact builds_fails _
          | cons param params =>
            have hliteral := builds_appendParamLiteral (hparams param List.mem_cons_self)
            dsimp only
            cases hresult : appendParamLiteral param with
            | error diag =>
              rw [hresult] at hliteral
              exact hliteral.andThen_error
            | ok literal =>
              rw [hresult] at hliteral
              exact hliteral.andThen
                (ih (fun other hother => hparams other (List.mem_cons_of_mem param hother)) hrest)
        · exact (builds_flStrbufAppendLen (by simp)).andThen (ih hparams hrest)

/-! ## Every run -/

/-- The calls of the allocator and the stores, with what the allocator answered. -/
abbrev HeapHistory := List (HeapCall UInt8 × Allocated UInt8)

/-- Each access and each call of the allocator makes sense where it is made. -/
def HeapSound (blocks : Blocks) (u : HeapHistory) : Prop :=
  ∀ before q r after, u = before ++ (q, r) :: after →
    (allocator.after ⟨blocks, false⟩ before).Allows q

variable {blocks : Blocks} {u : HeapHistory} {a : Ended × ℕ}

/-- **A request is built whole or not at all.** Whatever the allocator answers, `build_request_json`
stays within its block however it grows, and hands over the request in a block of its own; where an
allocation fails it fails, and leaves the heap as it was. -/
theorem buildRequestJson_onHeap (dbc : Dbc) (sql : Bytes) (count : ℤ) (hnull : blocks 0 = none)
    (hrun : Runs (OnHeap.buildRequestJson dbc sql count) u a)
    (hheap : allocator.Admits ⟨blocks, false⟩ u) :
    HeapSound blocks u ∧
      Built blocks (.ok (buildRequestJson dbc sql count)) a (allocator.after ⟨blocks, false⟩ u) :=
  (builds_buildRequestJson dbc sql count hnull).runs hrun hheap

/-- What an allocator answers that has one block, at 4096, and stores. -/
def oneBlock (stores : ℕ) : List (Allocated UInt8) :=
  ⟨4096, List.replicate 256 7⟩ :: List.replicate stores ⟨0, []⟩

theorem buildRequestJson_onHeap_demo : ∃ u,
    Runs (OnHeap.buildRequestJson allocDbc (lit "SELECT 1") (-1)) u (.ok, 4096) ∧
      HeapSound (fun _ => none) u ∧
      Built (fun _ => none) (.ok (buildRequestJson allocDbc (lit "SELECT 1") (-1))) (.ok, 4096)
        (allocator.after ⟨fun _ => none, false⟩ u) := by
  have hplay : ((OnHeap.buildRequestJson allocDbc (lit "SELECT 1") (-1)).play (oneBlock 24)).any
      (fun (u, a) => decide (a = (.ok, 4096)) &&
        decide (allocator.Admits ⟨fun _ => none, false⟩ u)) = true := by
    decide +kernel
  obtain ⟨⟨u, a⟩, hrun, hchecked⟩ := Option.any_eq_true _ _ |>.1 hplay
  simp only [Bool.and_eq_true, decide_eq_true_eq] at hchecked
  obtain ⟨rfl, hheap⟩ := hchecked
  have hrun := runs_of_play _ _ hrun
  exact ⟨u, hrun, buildRequestJson_onHeap allocDbc (lit "SELECT 1") (-1) rfl hrun hheap⟩

/-- **A statement is substituted whole or not at all.** `substitute_params` on a heap hands over the text
that the parameters make of the statement, in a block of its own, or fails with the same record, and
otherwise fails only where an allocation did; whenever it fails it leaves the heap as it was. -/
theorem substituteParams_onHeap {params : List BoundParam} {sql : Bytes} (hnull : blocks 0 = none)
    (hparams : ∀ param ∈ params, ∀ value ∈ param.buffer, value.Sized) (hsql : sql.length < 2 ^ 62)
    (hrun : Runs (OnHeap.substituteParams params sql) u a)
    (hheap : allocator.Admits ⟨blocks, false⟩ u) :
    HeapSound blocks u ∧
      Built blocks (substituteParams params sql) a (allocator.after ⟨blocks, false⟩ u) :=
  ((builds_substituteParamsFrom hparams hsql).holds_run hnull).runs hrun hheap

/-- A parameter bound as a `SQL_C_SLONG` of `-5`. -/
def slongParam : BoundParam := ⟨true, .integer, some (.slong (-5)), none⟩

theorem substituteParams_onHeap_demo : ∃ u,
    Runs (OnHeap.substituteParams [slongParam] (lit "a = ?")) u (.ok, 4096) ∧
      HeapSound (fun _ => none) u ∧ Built (fun _ => none) (substituteParams [slongParam] (lit "a = ?"))
        (.ok, 4096) (allocator.after ⟨fun _ => none, false⟩ u) := by
  have hplay : ((OnHeap.substituteParams [slongParam] (lit "a = ?")).play (oneBlock 14)).any
      (fun (u, a) => decide (a = (.ok, 4096)) &&
        decide (allocator.Admits ⟨fun _ => none, false⟩ u)) = true := by
    decide +kernel
  obtain ⟨⟨u, a⟩, hrun, hchecked⟩ := Option.any_eq_true _ _ |>.1 hplay
  simp only [Bool.and_eq_true, decide_eq_true_eq] at hchecked
  obtain ⟨rfl, hheap⟩ := hchecked
  have hrun := runs_of_play _ _ hrun
  refine ⟨u, hrun, substituteParams_onHeap rfl ?_ (by decide) hrun hheap⟩
  intro param hparam value hvalue
  rw [List.mem_singleton.1 hparam] at hvalue
  cases hvalue
  trivial

end FrostlakeOdbc
