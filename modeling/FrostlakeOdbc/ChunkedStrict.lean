import FrostlakeOdbc.Http
import FrostlakeOdbc.Lib.HttpText

/-!
# Which bodies the decoder takes

`decode_chunked` takes the bodies of a grammar that is looser than that of chunked encodings, and
refuses all others (`decodeChunked_malformed_iff`): a size is read where a line starts, whatever else
the line holds, and a line that has none counts as the last chunk; the line end behind the data of a
chunk may be missing, and so may the last chunk. A body that is taken is a complete encoding exactly
if it makes no use of this (`decodeChunked_complete_iff`).
-/

namespace FrostlakeOdbc

open CString HttpText

/-! ## Chunks in a loose sense -/

/-- A chunked body as a loose reader takes it apart. `last` is a line of size zero, and `back` one of a
negative size that leads back into the body; `closed` says whether there is a line end behind the
data. -/
inductive LooseChunks : Type where
  | ended
  | last (line : Bytes)
  | back (line : Bytes)
  | chunk (line data : Bytes) (closed : Bool) (rest : LooseChunks)

namespace LooseChunks

def data : LooseChunks → Bytes
  | .ended => []
  | .last _ => []
  | .back _ => []
  | .chunk _ data _ rest => data ++ rest.data

/-- The line end behind the data of a chunk. -/
def lineEnd (closed : Bool) : Bytes := if closed then crlf else []

/-- The text of a body of `length` bytes from some size line on, or from its end. A size is what `strtol`
reads where its line starts. -/
inductive Spelled (length : ℕ) : LooseChunks → Bytes → Prop where
  | ended : Spelled length .ended []
  | last {line tail : Bytes} (hline : IsLine line) (hsize : strtol 16 (line ++ (crlf ++ tail)) = 0) :
      Spelled length (.last line) (line ++ (crlf ++ tail))
  | back {line tail : Bytes} {k : ℕ} (hline : IsLine line)
      (hsize : strtol 16 (line ++ (crlf ++ tail)) = -k) (hpos : 0 < k)
      (hback : k + tail.length ≤ length) : Spelled length (.back line) (line ++ (crlf ++ tail))
  | chunk {line data rest : Bytes} {closed : Bool} {w : LooseChunks} (hline : IsLine line)
      (hsize : strtol 16 (line ++ (crlf ++ (data ++ (lineEnd closed ++ rest)))) = data.length)
      (hdata : data ≠ []) (hclosed : closed = false → ¬crlf <+: rest) (hrest : Spelled length w rest) :
      Spelled length (.chunk line data closed w)
        (line ++ (crlf ++ (data ++ (lineEnd closed ++ rest))))

/-- Every size line is one, with the size alone and an extension, the data of every chunk has its line
end, and the last chunk is there. -/
def Legal : LooseChunks → Prop
  | .ended => False
  | .last line => IsSizeLine 0 line
  | .back _ => False
  | .chunk line data closed rest => IsSizeLine data.length line ∧ closed = true ∧ rest.Legal

/-- What the decoder answers, where it has decoded `out`. -/
def outcome (out : Bytes) : LooseChunks → Chunked
  | .ended => .decoded out
  | .last _ => .decoded out
  | .back _ => .fault
  | .chunk _ data _ rest => rest.outcome (out ++ data)

variable {length : ℕ} {w : LooseChunks} {s : Bytes}

/-! ## What the decoder takes -/

/-- A turn of the loop where there is a line. -/
theorem decode_line {line : Bytes} (hline : IsLine line) (fuel : ℕ) (out tail : Bytes) :
    decodeChunkedFrom length (fuel + 1) out (line ++ (crlf ++ tail)) =
      let chunk := strtol 16 (line ++ (crlf ++ tail))
      if chunk = 0 then .decoded out
      else if chunk < 0 then
        if 0 ≤ (length - tail.length : ℤ) + chunk then .fault else .malformed
      else if (tail.length : ℤ) < chunk then .malformed
      else
        let rest := tail.drop chunk.toNat
        decodeChunkedFrom length fuel (out ++ tail.take chunk.toNat)
          (if crlf.isPrefixOf rest then rest.drop 2 else rest) := by
  have hne : line ++ (crlf ++ tail) ≠ [] := by simp [crlf]
  have hfind : find (lit "\r\n") (line ++ (crlf ++ tail)) = some line.length := hline.find tail
  have hdrop : (line ++ (crlf ++ tail)).drop (line.length + 2) = tail := by
    rw [← List.drop_drop, List.drop_left]
    rfl
  rw [decodeChunkedFrom, if_neg hne]
  simp only [hfind, hdrop]
  rfl

/-- Behind the data of a chunk, a line end is stepped over. -/
theorem behind_data {rest : Bytes} {closed : Bool} (hclosed : closed = false → ¬crlf <+: rest) :
    (if crlf.isPrefixOf (lineEnd closed ++ rest) then (lineEnd closed ++ rest).drop 2
      else lineEnd closed ++ rest) = rest := by
  cases closed with
  | false =>
    have hno : ¬crlf.isPrefixOf rest = true := fun h => hclosed rfl (List.isPrefixOf_iff_prefix.1 h)
    exact if_neg hno
  | true =>
    have hyes : crlf.isPrefixOf (crlf ++ rest) = true :=
      List.isPrefixOf_iff_prefix.2 (List.prefix_append _ _)
    exact if_pos hyes

/-- A turn of the loop where there is a chunk. -/
theorem decode_chunk {line data rest : Bytes} {closed : Bool} (hline : IsLine line)
    (hsize : strtol 16 (line ++ (crlf ++ (data ++ (lineEnd closed ++ rest)))) = data.length)
    (hdata : data ≠ []) (hclosed : closed = false → ¬crlf <+: rest) (fuel : ℕ) (out : Bytes) :
    decodeChunkedFrom length (fuel + 1) out (line ++ (crlf ++ (data ++ (lineEnd closed ++ rest)))) =
      decodeChunkedFrom length fuel (out ++ data) rest := by
  have hpos := List.length_pos_iff.2 hdata
  have hfits : ¬((data ++ (lineEnd closed ++ rest)).length : ℤ) < data.length := by
    rw [List.length_append]
    omega
  rw [decode_line hline, hsize]
  dsimp only
  rw [if_neg (by omega), if_neg (by omega), if_neg hfits, Int.toNat_natCast, List.drop_left,
    List.take_left, behind_data hclosed]

/-- A text that is long enough starts with data, and a line end that may be missing. -/
theorem exists_data {tail : Bytes} {n : ℕ} (h : n ≤ tail.length) :
    ∃ data closed rest, tail = data ++ (lineEnd closed ++ rest) ∧ data.length = n ∧
      (closed = false → ¬crlf <+: rest) := by
  have hdata : (tail.take n).length = n := by
    rw [List.length_take]
    omega
  by_cases hclosed : crlf <+: tail.drop n
  · obtain ⟨rest, hrest⟩ := hclosed
    refine ⟨tail.take n, true, rest, ?_, hdata, fun hno => by cases hno⟩
    show tail = tail.take n ++ (crlf ++ rest)
    rw [hrest, List.take_append_drop]
  · exact ⟨tail.take n, false, tail.drop n, (List.take_append_drop n tail).symm, hdata,
      fun _ => hclosed⟩

theorem Spelled.decode (h : Spelled length w s) {fuel : ℕ} (hfuel : s.length ≤ fuel) (out : Bytes) :
    decodeChunkedFrom length fuel out s = w.outcome out := by
  have htwo : crlf.length = 2 := rfl
  induction h generalizing out fuel with
  | ended => cases fuel <;> rfl
  | @last line tail hline hsize =>
    simp only [List.length_append] at hfuel
    obtain ⟨fuel, rfl⟩ : ∃ n, fuel = n + 1 := ⟨fuel - 1, by omega⟩
    rw [decode_line hline, hsize]
    rfl
  | @back line tail k hline hsize hpos hback =>
    simp only [List.length_append] at hfuel
    obtain ⟨fuel, rfl⟩ : ∃ n, fuel = n + 1 := ⟨fuel - 1, by omega⟩
    rw [decode_line hline, hsize]
    dsimp only
    rw [if_neg (by omega), if_pos (by omega), if_pos (by omega)]
    rfl
  | @chunk line data rest closed w hline hsize hdata hclosed _ ih =>
    simp only [List.length_append] at hfuel
    obtain ⟨fuel, rfl⟩ : ∃ n, fuel = n + 1 := ⟨fuel - 1, by omega⟩
    rw [decode_chunk hline hsize hdata hclosed]
    exact ih (by omega) _

/-- A body that is not refused is spelled so. -/
theorem exists_spelled : ∀ (fuel : ℕ) {s : Bytes} (out : Bytes), s.length ≤ fuel → s.length ≤ length →
    decodeChunkedFrom length fuel out s ≠ .malformed → ∃ w, Spelled length w s
  | fuel, s, out, hfuel, hlength, h => by
      by_cases hnil : s = []
      · rw [hnil]
        exact ⟨.ended, .ended⟩
      have hlen := List.length_pos_iff.2 hnil
      obtain ⟨fuel, rfl⟩ : ∃ n, fuel = n + 1 := ⟨fuel - 1, by omega⟩
      cases hfind : find crlf s with
      | none =>
        have hfind' : find (lit "\r\n") s = none := hfind
        rw [decodeChunkedFrom, if_neg hnil] at h
        simp only [hfind'] at h
        exact absurd rfl h
      | some n =>
        obtain ⟨line, tail, rfl, hline⟩ := exists_line hfind
        have htwo : crlf.length = 2 := rfl
        simp only [List.length_append] at hfuel hlength
        rcases lt_trichotomy (strtol 16 (line ++ (crlf ++ tail))) 0 with hneg | hzero | hpos
        · obtain ⟨k, hk⟩ := Int.exists_eq_neg_ofNat hneg.le
          rw [decode_line hline] at h
          dsimp only at h
          rw [if_neg hneg.ne, if_pos hneg] at h
          split at h
          · exact ⟨.back line, .back hline hk (by omega) (by omega)⟩
          · exact absurd rfl h
        · exact ⟨.last line, .last hline hzero⟩
        · obtain ⟨size, hsize⟩ := Int.eq_ofNat_of_zero_le hpos.le
          by_cases hfits : size ≤ tail.length
          · obtain ⟨data, closed, rest, rfl, hdata, hclosed⟩ := exists_data hfits
            rw [← hdata] at hsize
            have hne : data ≠ [] := List.ne_nil_of_length_pos (by omega)
            rw [decode_chunk hline hsize hne hclosed] at h
            simp only [List.length_append] at hfuel hlength
            obtain ⟨w, hw⟩ := exists_spelled fuel _ (by omega) (by omega) h
            exact ⟨.chunk line data closed w, .chunk hline hsize hne hclosed hw⟩
          · rw [decode_line hline] at h
            dsimp only at h
            rw [if_neg hpos.ne', if_neg (by omega), if_pos (by omega)] at h
            exact absurd rfl h

theorem outcome_ne_malformed : ∀ (w : LooseChunks) (out : Bytes), w.outcome out ≠ .malformed
  | .ended, _ => fun h => by cases h
  | .last _, _ => fun h => by cases h
  | .back _, _ => fun h => by cases h
  | .chunk _ data _ rest, out => outcome_ne_malformed rest (out ++ data)

/-- The decoder refuses what is not spelled as a body of chunks, even in a loose sense. -/
theorem decodeChunked_malformed_iff (body : Bytes) :
    decodeChunked body = .malformed ↔ ∀ w, ¬Spelled body.length w body := by
  constructor
  · intro h w hw
    have hdecoded := hw.decode le_rfl []
    rw [show decodeChunkedFrom body.length body.length [] body = .malformed from h] at hdecoded
    exact outcome_ne_malformed w [] hdecoded.symm
  · intro hno
    by_contra h
    obtain ⟨w, hw⟩ := exists_spelled body.length [] le_rfl le_rfl h
    exact hno w hw

/-! ## What is complete -/

theorem Legal.outcome {w : LooseChunks} (h : w.Legal) (out : Bytes) :
    w.outcome out = .decoded (out ++ w.data) := by
  induction w generalizing out with
  | ended => cases h
  | last line => exact congrArg Chunked.decoded (List.append_nil out).symm
  | back line => cases h
  | chunk line data closed rest ih =>
    refine (ih h.2.2 (out ++ data)).trans ?_
    rw [List.append_assoc]
    rfl

/-- Chunks that are legal make a complete encoding. -/
theorem Spelled.complete (h : Spelled length w s) (hlegal : w.Legal) : CompleteChunks w.data s := by
  induction h with
  | ended => cases hlegal
  | last hline _ => exact .last ((sizeLine_append_iff hline).2 ⟨hlegal, rfl⟩)
  | back _ _ _ _ => cases hlegal
  | chunk hline _ hdata _ _ ih =>
    obtain ⟨hsize, rfl, hrest⟩ := hlegal
    exact .cons hdata ((sizeLine_append_iff hline).2 ⟨hsize, rfl⟩) (ih hrest)

/-- A size that is read is the one that the line says, if it is no larger than a body. -/
theorem eq_of_strtol {s tail : Bytes} {n : ℕ} {m : ℤ} (h : SizeLine s n tail) (hsize : strtol 16 s = m)
    (hm : m < longMax) : (n : ℤ) = m := by
  rw [h.strtol] at hsize
  omega

/-- A complete encoding is spelled with legal chunks only. -/
theorem Spelled.legal (h : Spelled length w s) (hlen : s.length < 2 ^ 63) {data : Bytes}
    (hcomplete : CompleteChunks data s) : w.Legal := by
  have hmax : longMax = 2 ^ 63 - 1 := rfl
  have htwo : crlf.length = 2 := rfl
  induction h generalizing data with
  | ended =>
    have hno : ∀ {n tail}, ¬SizeLine [] n tail := by
      intro n tail hsize
      obtain ⟨line, -, heq⟩ := sizeLine_iff.1 hsize
      have hlength := congrArg List.length heq
      simp only [List.length_append, List.length_nil] at hlength
      omega
    cases hcomplete with
    | last hsize => exact absurd hsize hno
    | cons _ hsize _ => exact absurd hsize hno
  | last hline hzero =>
    cases hcomplete with
    | last hsize => exact ((sizeLine_append_iff hline).1 hsize).1
    | cons hdata hsize _ =>
      have hpos := List.length_pos_iff.2 hdata
      have := eq_of_strtol hsize hzero (by omega)
      omega
  | back _ hneg hpos _ =>
    cases hcomplete with
    | last hsize =>
      have := eq_of_strtol hsize hneg (by omega)
      omega
    | cons _ hsize _ =>
      have := eq_of_strtol hsize hneg (by omega)
      omega
  | @chunk line chunk rest closed w hline hread hchunk hclosed _ ih =>
    simp only [List.length_append] at hlen
    have hpos := List.length_pos_iff.2 hchunk
    cases hcomplete with
    | last hsize =>
      have := eq_of_strtol hsize hread (by omega)
      omega
    | @cons data' _ _ rest' _ hsize hrest =>
      have hlength := eq_of_strtol hsize hread (by omega)
      rw [Int.natCast_inj] at hlength
      obtain ⟨hsizeLine, htail⟩ := (sizeLine_append_iff hline).1 hsize
      obtain ⟨rfl, hbehind⟩ := List.append_inj htail hlength
      cases closed with
      | false => exact absurd ⟨rest', hbehind⟩ (hclosed rfl)
      | true =>
        obtain rfl : rest' = rest := List.append_cancel_left hbehind
        exact ⟨hsizeLine, rfl, ih (by omega) hrest⟩

end LooseChunks

open LooseChunks

/-- `decode_chunked` refuses a body or hands out what a complete chunked encoding at its start holds,
exactly if the body, where it is made of chunks in a loose sense, is made of legal ones. -/
theorem decodeChunked_complete_iff {body : Bytes} (hlen : body.length < 2 ^ 63) :
    (decodeChunked body = .malformed ∨
      ∃ data, decodeChunked body = .decoded data ∧ CompleteChunks data body) ↔
    ∀ w, Spelled body.length w body → w.Legal := by
  constructor
  · rintro (hmalformed | ⟨data, -, hcomplete⟩) w hw
    · exact absurd hw ((decodeChunked_malformed_iff body).1 hmalformed w)
    · exact hw.legal hlen hcomplete
  · intro h
    by_cases hmalformed : decodeChunked body = .malformed
    · exact .inl hmalformed
    · obtain ⟨w, hw⟩ := exists_spelled body.length [] le_rfl le_rfl hmalformed
      have hlegal := h w hw
      exact .inr ⟨w.data, (hw.decode le_rfl []).trans (hlegal.outcome []), hw.complete hlegal⟩

theorem completeChunks_hello :
    CompleteChunks (lit "hello") (lit "5;a\r\nhello\r\n0\r\n\r\n") := by
  have hfive : IsSizeLine 5 (lit "5;a") :=
    ⟨lit "5", lit ";a", ⟨by decide, forall_mem_of_all (by decide), by decide⟩,
      .inr ⟨by decide, by decide⟩, by decide⟩
  have hzero : IsSizeLine 0 (lit "0") :=
    ⟨lit "0", [], ⟨by decide, forall_mem_of_all (by decide), by decide⟩, .inl rfl, by decide⟩
  have hlast : CompleteChunks [] (lit "0\r\n\r\n") :=
    .last (sizeLine_iff.2 ⟨_, hzero, (by decide : lit "0\r\n\r\n" = lit "0" ++ (crlf ++ lit "\r\n"))⟩)
  have hdata : lit "hello" ≠ [] := by decide
  exact .cons hdata (sizeLine_iff.2 ⟨_, hfive, by decide⟩) hlast

/-- A complete body, of one chunk with an extension. -/
theorem decodeChunked_complete_hello :
    decodeChunked (lit "5;a\r\nhello\r\n0\r\n\r\n") = .malformed ∨
      ∃ data, decodeChunked (lit "5;a\r\nhello\r\n0\r\n\r\n") = .decoded data ∧
        CompleteChunks data (lit "5;a\r\nhello\r\n0\r\n\r\n") :=
  (decodeChunked_complete_iff (by decide)).2 fun _ hw => hw.legal (by decide) completeChunks_hello

/-- A body that ends before its zero chunk is accepted. -/
theorem decodeChunked_cut :
    ¬(decodeChunked (lit "5\r\nhello\r\n") = .malformed ∨
      ∃ data, decodeChunked (lit "5\r\nhello\r\n") = .decoded data ∧
        CompleteChunks data (lit "5\r\nhello\r\n")) := by
  have hdecoded : decodeChunked (lit "5\r\nhello\r\n") = .decoded (lit "hello") := by decide
  have hspelled : Spelled 10 (.chunk (lit "5") (lit "hello") true .ended) (lit "5\r\nhello\r\n") := by
    have hline : IsLine (lit "5") := by
      unfold IsLine
      decide
    exact .chunk hline (by decide) (by decide) (fun hno => by cases hno) .ended
  rw [hdecoded]
  rintro (h | ⟨data, -, hcomplete⟩)
  · cases h
  · exact (hspelled.legal (by decide) hcomplete).2.2

end FrostlakeOdbc
