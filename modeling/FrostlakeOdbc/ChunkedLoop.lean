import FrostlakeOdbc.Http
import FrostlakeOdbc.Lib.HttpText
import Mathlib.Logic.Relation

/-!
# The loop of `decode_chunked`

`decodeChunked` keeps apart what is decoded and what is left to read. Here the loop stands as in the
source, with two positions in one buffer: every chunk is moved over what has been read before
(`Keeps`). It is the same function (`answers_decodeChunked`), and it stays inside its buffer exactly
if no size line that it comes to reads as a negative number that leads back into the body
(`safe_iff`).
-/

namespace FrostlakeOdbc

open CString HttpText

/-! ## The size lines of a body -/

section

variable (body : Bytes)

/-- The position behind the size line at a position. -/
def behindLine (pos : ℕ) : Option ℕ := (find crlf (body.drop pos)).map fun n => pos + n + 2

/-- What is read as the size at a position. -/
def sizeAt (pos : ℕ) : ℤ := strtol 16 (body.drop pos)

/-- A line end behind the data of a chunk is stepped over. -/
def behindData (pos : ℕ) : ℕ := if crlf.isPrefixOf (body.drop pos) then pos + 2 else pos

/-- From one size line to the next, over a chunk that is there. -/
inductive NextLine (pos : ℕ) : ℕ → Prop where
  | chunk {line size : ℕ} (hline : behindLine body pos = some line) (hsize : sizeAt body pos = size)
      (hpos : 0 < size) (hfits : line + size ≤ body.length) : NextLine pos (behindData body (line + size))

/-- A size line that is come to. -/
def Visits (pos : ℕ) : Prop := Relation.ReflTransGen (NextLine body) 0 pos

/-- The size reads as a negative number, and leads from behind its line back into the body. -/
def Wraps (pos : ℕ) : Prop :=
  ∃ line, behindLine body pos = some line ∧ sizeAt body pos < 0 ∧ 0 ≤ line + sizeAt body pos

/-- There is no line, or its size leads out of the body. -/
def Refuses (pos : ℕ) : Prop :=
  pos < body.length ∧ ∀ line, behindLine body pos = some line →
    sizeAt body pos ≠ 0 ∧ (line + sizeAt body pos < 0 ∨ body.length < line + sizeAt body pos)

/-- What may be found at a position. -/
inductive Place (pos : ℕ) : Prop where
  | ended (h : body.length ≤ pos)
  | refused (h : Refuses body pos)
  | last {line : ℕ} (hline : behindLine body pos = some line) (hsize : sizeAt body pos = 0)
  | wraps (h : Wraps body pos)
  | next {pos' : ℕ} (h : NextLine body pos pos')

theorem place (pos : ℕ) : Place body pos := by
  by_cases hended : body.length ≤ pos
  · exact .ended hended
  rw [Nat.not_le] at hended
  cases hline : behindLine body pos with
  | none =>
    refine .refused ⟨hended, fun line h => ?_⟩
    rw [hline] at h
    cases h
  | some line =>
    have hrefused : sizeAt body pos ≠ 0 →
        (line + sizeAt body pos < 0 ∨ body.length < line + sizeAt body pos) → Place body pos := by
      intro hsize h
      refine .refused ⟨hended, fun line' h' => ?_⟩
      rw [hline] at h'
      cases h'
      exact ⟨hsize, h⟩
    rcases lt_trichotomy (sizeAt body pos) 0 with hneg | hzero | hpos
    · by_cases hback : 0 ≤ line + sizeAt body pos
      · exact .wraps ⟨line, hline, hneg, hback⟩
      · exact hrefused hneg.ne (.inl (by omega))
    · exact .last hline hzero
    · by_cases hfits : line + sizeAt body pos ≤ body.length
      · obtain ⟨size, hsize⟩ := Int.eq_ofNat_of_zero_le hpos.le
        exact .next (.chunk hline hsize (by omega) (by omega))
      · exact hrefused hpos.ne' (.inr (by omega))

variable {body} {pos line : ℕ}

theorem behindLine_le (h : behindLine body pos = some line) : pos + 2 ≤ line ∧ line ≤ body.length := by
  obtain ⟨n, hfind, rfl⟩ := Option.map_eq_some_iff.1 h
  have hn := find_length hfind
  have htwo : crlf.length = 2 := rfl
  rw [List.length_drop] at hn
  omega

theorem behindData_le (h : pos ≤ body.length) :
    pos ≤ behindData body pos ∧ behindData body pos ≤ body.length := by
  unfold behindData
  split
  · next hprefix =>
    have hlen := (List.isPrefixOf_iff_prefix.1 hprefix).length_le
    have htwo : crlf.length = 2 := rfl
    rw [List.length_drop] at hlen
    omega
  · omega

theorem NextLine.lt {pos' : ℕ} (h : NextLine body pos pos') : pos < pos' ∧ pos' ≤ body.length := by
  cases h with
  | chunk hline hsize hpos hfits =>
    have hle := behindLine_le hline
    have hdata := behindData_le hfits
    omega

theorem NextLine.unique {a b : ℕ} (ha : NextLine body pos a) (hb : NextLine body pos b) : a = b := by
  cases ha with
  | chunk hline hsize _ _ =>
    cases hb with
    | chunk hline' hsize' _ _ =>
      rw [hline] at hline'
      rw [hsize] at hsize'
      cases hline'
      cases hsize'
      rfl

theorem not_nextLine_of_size (h : sizeAt body pos ≤ 0) (pos' : ℕ) : ¬NextLine body pos pos' := by
  intro hnext
  cases hnext
  omega

end

/-! ## The loop with its positions -/

/-- The state of the loop. -/
structure Decoder where
  buffer : Bytes
  readPos : ℕ
  writePos : ℕ

/-- A call of `memmove`, by positions in the buffer. -/
structure Move where
  target : ℕ
  source : ℕ
  size : ℕ

/-- Both ranges of a move lie inside the body. -/
def Move.Inside (m : Move) (length : ℕ) : Prop :=
  m.source + m.size ≤ length ∧ m.target + m.size ≤ length

/-- `memmove`, as far as its ranges are inside the buffer. -/
def Move.apply (m : Move) (buffer : Bytes) : Bytes :=
  buffer.take m.target ++ (buffer.drop m.source).take m.size ++ buffer.drop (m.target + m.size)

/-- The conversion to a `size_t`. -/
def toSize (n : ℤ) : ℕ := (n % 2 ^ 64).toNat

/-- What a turn of the loop does: it returns, or moves a chunk. -/
inductive Turn : Type where
  | returned (result : ℤ)
  | moved (move : Move) (next : Decoder)

/-- A turn of the loop of `decode_chunked`, or the return behind it. -/
def turn (d : Decoder) : Turn :=
  if d.readPos < d.buffer.length then
    let rest := d.buffer.drop d.readPos
    match find (lit "\r\n") rest with
    | none => .returned (-1)
    | some lineEnd =>
        let chunk := strtol 16 rest
        let readPos := d.readPos + lineEnd + 2
        if chunk = 0 then .returned d.writePos
        else if d.buffer.length < toSize (readPos + toSize chunk) then .returned (-1)
        else
          let move : Move := ⟨d.writePos, readPos, toSize chunk⟩
          let buffer := move.apply d.buffer
          let readPos := toSize (readPos + toSize chunk)
          .moved move
            { buffer := buffer
              writePos := toSize (d.writePos + toSize chunk)
              readPos :=
                if (lit "\r\n").isPrefixOf (buffer.drop readPos) then readPos + 2 else readPos }
  else .returned d.writePos

/-- The loop at its start. -/
def Decoder.start (body : Bytes) : Decoder := ⟨body, 0, 0⟩

/-- From a state on the loop ends, with -1 or a length no greater than the body's; until then it moves
inside the body, its read position grows, and its write position does not pass it. -/
inductive Safe (length : ℕ) : Decoder → Prop where
  | returned {d : Decoder} {result : ℤ} (h : turn d = .returned result)
      (hresult : result = -1 ∨ 0 ≤ result ∧ result ≤ length) : Safe length d
  | moved {d next : Decoder} {move : Move} (h : turn d = .moved move next)
      (hinside : move.Inside length) (hread : d.readPos < next.readPos)
      (hwrite : next.writePos ≤ next.readPos) (hnext : Safe length next) : Safe length d

/-- What the loop answers from a state on. -/
inductive Answers (length : ℕ) : Decoder → Chunked → Prop where
  | refused {d : Decoder} (h : turn d = .returned (-1)) : Answers length d .malformed
  | returned {d : Decoder} {n : ℕ} (h : turn d = .returned n) : Answers length d (.decoded (d.buffer.take n))
  | moved {d next : Decoder} {move : Move} {answer : Chunked} (h : turn d = .moved move next)
      (hinside : move.Inside length) (hnext : Answers length next answer) : Answers length d answer
  | fault {d next : Decoder} {move : Move} (h : turn d = .moved move next)
      (houtside : ¬move.Inside length) : Answers length d .fault

/-! ## What the loop keeps -/

/-- The loop has decoded `out`, and has not yet written where it is to read. -/
structure Keeps (body out : Bytes) (d : Decoder) : Prop where
  length : d.buffer.length = body.length
  rest : d.buffer.drop d.readPos = body.drop d.readPos
  written : d.buffer.take d.writePos = out
  writePos : d.writePos = out.length
  write_le : d.writePos ≤ d.readPos
  read_le : d.readPos ≤ body.length

theorem keeps_start (body : Bytes) : Keeps body [] (.start body) :=
  ⟨rfl, rfl, rfl, rfl, le_rfl, Nat.zero_le _⟩

section

variable {body out : Bytes} {d : Decoder}

/-- The data of the chunk at a position. -/
def dataAt (body : Bytes) (pos : ℕ) : Bytes :=
  (body.drop ((behindLine body pos).getD 0)).take (sizeAt body pos).toNat

theorem toSize_of_nonneg {n : ℤ} (h0 : 0 ≤ n) (h : n < 2 ^ 64) : toSize n = n.toNat := by
  unfold toSize
  rw [Int.emod_eq_of_lt h0 h]

theorem toSize_of_neg {n : ℤ} (h0 : n < 0) (h : -2 ^ 64 ≤ n) : (toSize n : ℤ) = n + 2 ^ 64 := by
  unfold toSize
  rw [← Int.add_emod_right, Int.emod_eq_of_lt (by omega) (by omega)]
  omega

/-- What is read at a position is a `long`. -/
theorem sizeAt_bounds (body : Bytes) (pos : ℕ) :
    -2 ^ 63 ≤ sizeAt body pos ∧ sizeAt body pos < 2 ^ 63 := by
  unfold sizeAt strtol longMin longMax
  dsimp only
  omega

theorem turn_ended (hk : Keeps body out d) (h : body.length ≤ d.readPos) :
    turn d = .returned d.writePos := by
  have hlen := hk.length
  unfold turn
  rw [if_neg (by omega)]

/-- A turn where there is a size line. -/
theorem turn_line (hk : Keeps body out d) {line : ℕ} (hline : behindLine body d.readPos = some line) :
    turn d =
      if sizeAt body d.readPos = 0 then .returned d.writePos
      else if body.length < toSize (line + toSize (sizeAt body d.readPos)) then .returned (-1)
      else
        let move : Move := ⟨d.writePos, line, toSize (sizeAt body d.readPos)⟩
        let buffer := move.apply d.buffer
        let readPos := toSize (line + toSize (sizeAt body d.readPos))
        .moved move
          { buffer := buffer
            writePos := toSize (d.writePos + toSize (sizeAt body d.readPos))
            readPos := if crlf.isPrefixOf (buffer.drop readPos) then readPos + 2 else readPos } := by
  have hle := behindLine_le hline
  obtain ⟨n, hfind, rfl⟩ := Option.map_eq_some_iff.1 hline
  have hlen := hk.length
  have hfind' : find (lit "\r\n") (d.buffer.drop d.readPos) = some n := by
    rw [hk.rest]
    exact hfind
  unfold turn
  rw [if_pos (by omega)]
  dsimp only
  rw [hfind', hk.rest, hk.length]
  rfl

theorem turn_last (hk : Keeps body out d) {line : ℕ} (hline : behindLine body d.readPos = some line)
    (hsize : sizeAt body d.readPos = 0) : turn d = .returned d.writePos := by
  rw [turn_line hk hline, if_pos hsize]

theorem turn_refused (hk : Keeps body out d) (hlen : body.length < 2 ^ 63)
    (h : Refuses body d.readPos) : turn d = .returned (-1) := by
  cases hline : behindLine body d.readPos with
  | none =>
    have hfind : find (lit "\r\n") (d.buffer.drop d.readPos) = none := by
      rw [hk.rest]
      exact Option.map_eq_none_iff.1 hline
    have hlt := h.1
    rw [← hk.length] at hlt
    unfold turn
    rw [if_pos hlt]
    dsimp only
    rw [hfind]
  | some line =>
    obtain ⟨hsize, hout⟩ := h.2 line hline
    obtain ⟨hlow, hhigh⟩ := sizeAt_bounds body d.readPos
    have hle := behindLine_le hline
    rw [turn_line hk hline, if_neg hsize, if_pos]
    rcases hout with hneg | hbig
    · -- the sum does not reach 2^64
      have hwrapped := toSize_of_neg (n := sizeAt body d.readPos) (by omega) (by omega)
      rw [toSize_of_nonneg (by omega) (by omega)]
      omega
    · have hplain := toSize_of_nonneg (n := sizeAt body d.readPos) (by omega) (by omega)
      rw [toSize_of_nonneg (by omega) (by omega)]
      omega

theorem turn_wraps (hk : Keeps body out d) (hlen : body.length < 2 ^ 63) (h : Wraps body d.readPos) :
    ∃ move next, turn d = .moved move next ∧ ¬move.Inside body.length := by
  obtain ⟨line, hline, hneg, hback⟩ := h
  obtain ⟨hlow, hhigh⟩ := sizeAt_bounds body d.readPos
  have hle := behindLine_le hline
  have hwrapped := toSize_of_neg (n := sizeAt body d.readPos) hneg (by omega)
  have hsum : (toSize (line + toSize (sizeAt body d.readPos)) : ℤ) = line + sizeAt body d.readPos := by
    unfold toSize at hwrapped ⊢
    omega
  have hturn := turn_line hk hline
  rw [if_neg hneg.ne, if_neg (by omega)] at hturn
  refine ⟨_, _, hturn, fun hinside => ?_⟩
  have hsource : line + toSize (sizeAt body d.readPos) ≤ body.length := hinside.1
  omega

theorem Move.length_apply {m : Move} {buffer : Bytes} (h : m.Inside buffer.length) :
    (m.apply buffer).length = buffer.length := by
  obtain ⟨hsource, htarget⟩ := h
  unfold Move.apply
  rw [List.length_append, List.length_append, List.length_take, List.length_take, List.length_drop,
    List.length_drop]
  omega

/-- What a move writes goes up to its end. -/
theorem Move.length_written {m : Move} {buffer : Bytes} (h : m.Inside buffer.length) :
    (buffer.take m.target ++ (buffer.drop m.source).take m.size).length = m.target + m.size := by
  obtain ⟨hsource, htarget⟩ := h
  rw [List.length_append, List.length_take, List.length_take, List.length_drop]
  omega

/-- Behind what it writes, a move leaves everything as it is. -/
theorem Move.drop_apply {m : Move} {buffer : Bytes} (h : m.Inside buffer.length) {pos : ℕ}
    (hpos : m.target + m.size ≤ pos) : (m.apply buffer).drop pos = buffer.drop pos := by
  have hfront := Move.length_written h
  obtain ⟨k, rfl⟩ := Nat.exists_eq_add_of_le hpos
  unfold Move.apply
  rw [← List.drop_drop, ← hfront, List.drop_left, List.drop_drop, hfront]

theorem Move.take_apply {m : Move} {buffer : Bytes} (h : m.Inside buffer.length) :
    (m.apply buffer).take (m.target + m.size) =
      buffer.take m.target ++ (buffer.drop m.source).take m.size := by
  unfold Move.apply
  rw [← Move.length_written h, List.take_left]

theorem turn_next (hk : Keeps body out d) (hlen : body.length < 2 ^ 63) {pos : ℕ}
    (h : NextLine body d.readPos pos) :
    ∃ move next, turn d = .moved move next ∧ move.Inside body.length ∧ next.readPos = pos ∧
      Keeps body (out ++ dataAt body d.readPos) next := by
  cases h with
  | @chunk line size hline hsize hpos hfits =>
    have hle := behindLine_le hline
    have hwrite := hk.write_le
    have hread := hk.read_le
    have hdata : dataAt body d.readPos = (body.drop line).take size := by
      unfold dataAt
      rw [hline, hsize]
      rfl
    have hturn := turn_line hk hline
    have hchunk : toSize (size : ℤ) = size := by
      rw [toSize_of_nonneg (by omega) (by omega), Int.toNat_natCast]
    have hread' : toSize (line + size : ℤ) = line + size := by
      rw [toSize_of_nonneg (by omega) (by omega)]
      omega
    have hwrite' : toSize (d.writePos + size : ℤ) = d.writePos + size := by
      rw [toSize_of_nonneg (by omega) (by omega)]
      omega
    rw [hsize, hchunk, hread', hwrite', if_neg (by omega), if_neg (by omega)] at hturn
    let move : Move := ⟨d.writePos, line, size⟩
    have hinside : move.Inside d.buffer.length := by
      rw [hk.length]
      exact ⟨hfits, show d.writePos + size ≤ body.length by omega⟩
    have hsame : ∀ k, line ≤ k → d.buffer.drop k = body.drop k := by
      intro k hk'
      obtain ⟨j, rfl⟩ : ∃ j, k = d.readPos + j := ⟨k - d.readPos, by omega⟩
      rw [← List.drop_drop, hk.rest, List.drop_drop]
    have hbehind : ∀ k, line + size ≤ k → (move.apply d.buffer).drop k = body.drop k := by
      intro k hk'
      rw [Move.drop_apply hinside (show d.writePos + size ≤ k by omega), hsame k (by omega)]
    refine ⟨move, _, hturn, hk.length ▸ hinside, ?_, ?_, ?_, ?_, ?_, ?_, ?_⟩
    · show (if crlf.isPrefixOf ((move.apply d.buffer).drop (line + size)) then _ else _) = _
      rw [hbehind _ le_rfl]
      rfl
    · show (move.apply d.buffer).length = _
      rw [Move.length_apply hinside, hk.length]
    · apply hbehind
      dsimp only
      split <;> omega
    · show (move.apply d.buffer).take (d.writePos + size) = _
      rw [hdata, ← hk.written, ← hsame line le_rfl]
      exact Move.take_apply hinside
    · show d.writePos + size = _
      rw [List.length_append, hdata, List.length_take, List.length_drop, hk.writePos]
      omega
    · dsimp only
      split <;> omega
    · show (if crlf.isPrefixOf ((move.apply d.buffer).drop (line + size)) then _ else _) ≤ _
      rw [hbehind _ le_rfl]
      exact (behindData_le hfits).2

/-! ## Where the loop stays inside -/

theorem Safe.not_wraps (hlen : body.length < 2 ^ 63) {out : Bytes} {d : Decoder}
    (hs : Safe body.length d) (hk : Keeps body out d) :
    ∀ pos, Relation.ReflTransGen (NextLine body) d.readPos pos → ¬Wraps body pos := by
  induction hs generalizing out with
  | @returned d result h hresult =>
    have hnowrap : ¬Wraps body d.readPos := by
      intro hwraps
      obtain ⟨move, next, hturn, -⟩ := turn_wraps hk hlen hwraps
      rw [hturn] at h
      cases h
    intro pos hpos
    rcases hpos.cases_head with rfl | ⟨pos', hnext, -⟩
    · exact hnowrap
    · obtain ⟨move, next, hturn, -⟩ := turn_next hk hlen hnext
      rw [hturn] at h
      cases h
  | @moved d next move h hinside hread hwrite hsafe ih =>
    intro pos hpos
    rcases hpos.cases_head with rfl | ⟨pos', hnext, hrest⟩
    · intro hwraps
      obtain ⟨move', next', hturn, houtside⟩ := turn_wraps hk hlen hwraps
      rw [hturn] at h
      cases h
      exact houtside hinside
    · obtain ⟨move', next', hturn, -, hat, hk'⟩ := turn_next hk hlen hnext
      rw [hturn] at h
      cases h
      rw [← hat] at hrest
      exact ih hk' pos hrest

theorem safe_of_not_wraps (hlen : body.length < 2 ^ 63) : ∀ (fuel : ℕ) {out : Bytes} {d : Decoder},
    body.length ≤ fuel + d.readPos → Keeps body out d →
    (∀ pos, Relation.ReflTransGen (NextLine body) d.readPos pos → ¬Wraps body pos) →
      Safe body.length d
  | fuel, out, d, hfuel, hk, hno => by
      have hread := hk.read_le
      have hwrite := hk.write_le
      have hlength : (d.writePos : ℤ) = -1 ∨ 0 ≤ (d.writePos : ℤ) ∧ (d.writePos : ℤ) ≤ body.length :=
        .inr ⟨by omega, by omega⟩
      cases place body d.readPos with
      | ended h => exact .returned (turn_ended hk h) hlength
      | refused h => exact .returned (turn_refused hk hlen h) (.inl rfl)
      | last hline hsize => exact .returned (turn_last hk hline hsize) hlength
      | wraps h => exact absurd h (hno _ .refl)
      | next h =>
        have hlt := h.lt
        obtain ⟨move, next, hturn, hinside, hat, hk'⟩ := turn_next hk hlen h
        obtain ⟨fuel, rfl⟩ : ∃ n, fuel = n + 1 := ⟨fuel - 1, by omega⟩
        refine .moved hturn hinside (by omega) hk'.write_le ?_
        refine safe_of_not_wraps hlen fuel (by omega) hk' fun pos hpos => hno pos ?_
        rw [hat] at hpos
        exact hpos.head h

end

/-- For a body that fits in memory, `decode_chunked` stays inside it exactly if none of the size lines
it comes to reads as a negative number that leads back into the body. -/
theorem safe_iff {body : Bytes} (hlen : body.length < 2 ^ 63) :
    Safe body.length (.start body) ↔ ∀ pos, Visits body pos → ¬Wraps body pos :=
  ⟨fun h => h.not_wraps hlen (keeps_start body),
    safe_of_not_wraps hlen body.length (Nat.le_add_right _ _) (keeps_start body)⟩

theorem safe_hello : Safe (lit "5\r\nhello\r\n0\r\n\r\n").length (.start (lit "5\r\nhello\r\n0\r\n\r\n")) := by
  refine (safe_iff (by decide)).2 fun pos hvisits => ?_
  have hfirst : ∀ pos', NextLine (lit "5\r\nhello\r\n0\r\n\r\n") 0 pos' → pos' = 10 := by
    intro pos' hnext
    exact hnext.unique (@NextLine.chunk _ 0 3 5 rfl rfl (by decide) (by decide))
  have hzero : sizeAt (lit "5\r\nhello\r\n0\r\n\r\n") 10 = 0 := by decide
  have hplaces : pos = 0 ∨ pos = 10 := by
    rcases hvisits.cases_head with rfl | ⟨pos', hnext, hrest⟩
    · exact .inl rfl
    · rw [hfirst pos' hnext] at hrest
      rcases hrest.cases_head with rfl | ⟨pos'', hnext', -⟩
      · exact .inr rfl
      · exact absurd hnext' (not_nextLine_of_size (by rw [hzero]) pos'')
  rintro ⟨line, -, hneg, -⟩
  rcases hplaces with rfl | rfl
  · revert hneg
    decide
  · rw [hzero] at hneg
    exact absurd hneg (by decide)

/-- The size of the second chunk leads back into the first. -/
theorem safe_back :
    ¬Safe (lit "5\r\nhello\r\n-1\r\n").length (.start (lit "5\r\nhello\r\n-1\r\n")) := by
  intro h
  have hwraps : Wraps (lit "5\r\nhello\r\n-1\r\n") 10 := ⟨14, rfl, by decide, by decide⟩
  have hnext : NextLine (lit "5\r\nhello\r\n-1\r\n") 0 10 :=
    @NextLine.chunk _ 0 3 5 rfl rfl (by decide) (by decide)
  exact h.not_wraps (by decide) (keeps_start _) 10 (.single hnext) hwraps

/-! ## The same function -/

section

variable {body out : Bytes} {pos fuel : ℕ}

theorem decodeChunkedFrom_ended (h : body.length ≤ pos) :
    decodeChunkedFrom body.length fuel out (body.drop pos) = .decoded out := by
  rw [List.drop_eq_nil_of_le h]
  cases fuel <;> rfl

/-- A turn of the loop where there is a size line. -/
theorem decodeChunkedFrom_line {line : ℕ} (hline : behindLine body pos = some line) :
    decodeChunkedFrom body.length (fuel + 1) out (body.drop pos) =
      if sizeAt body pos = 0 then .decoded out
      else if sizeAt body pos < 0 then
        if 0 ≤ (body.length - (body.drop line).length : ℤ) + sizeAt body pos then .fault else .malformed
      else if ((body.drop line).length : ℤ) < sizeAt body pos then .malformed
      else
        let rest := (body.drop line).drop (sizeAt body pos).toNat
        decodeChunkedFrom body.length fuel (out ++ (body.drop line).take (sizeAt body pos).toNat)
          (if crlf.isPrefixOf rest then rest.drop 2 else rest) := by
  obtain ⟨hlt, hle⟩ := behindLine_le hline
  obtain ⟨n, hfind, rfl⟩ := Option.map_eq_some_iff.1 hline
  have hne : body.drop pos ≠ [] := by
    intro hnil
    have hlen := congrArg List.length hnil
    rw [List.length_drop, List.length_nil] at hlen
    omega
  have hfind' : find (lit "\r\n") (body.drop pos) = some n := hfind
  have hdrop : (body.drop pos).drop (n + 2) = body.drop (pos + n + 2) := by
    rw [List.drop_drop]
    rfl
  rw [decodeChunkedFrom, if_neg hne]
  simp only [hfind', hdrop]
  rfl

theorem decodeChunkedFrom_refused (h : Refuses body pos) :
    decodeChunkedFrom body.length (fuel + 1) out (body.drop pos) = .malformed := by
  cases hline : behindLine body pos with
  | none =>
    have hne : body.drop pos ≠ [] := by
      intro hnil
      have hlen := congrArg List.length hnil
      have hlt := h.1
      rw [List.length_drop, List.length_nil] at hlen
      omega
    have hfind : find (lit "\r\n") (body.drop pos) = none := Option.map_eq_none_iff.1 hline
    rw [decodeChunkedFrom, if_neg hne]
    simp only [hfind]
  | some line =>
    obtain ⟨hsize, hout⟩ := h.2 line hline
    have hle := behindLine_le hline
    rw [decodeChunkedFrom_line hline, if_neg hsize, List.length_drop]
    by_cases hneg : sizeAt body pos < 0
    · rw [if_pos hneg, if_neg (by omega)]
    · rw [if_neg hneg, if_pos (by omega)]

theorem decodeChunkedFrom_last {line : ℕ} (hline : behindLine body pos = some line)
    (hsize : sizeAt body pos = 0) :
    decodeChunkedFrom body.length (fuel + 1) out (body.drop pos) = .decoded out := by
  rw [decodeChunkedFrom_line hline, if_pos hsize]

theorem decodeChunkedFrom_wraps (h : Wraps body pos) :
    decodeChunkedFrom body.length (fuel + 1) out (body.drop pos) = .fault := by
  obtain ⟨line, hline, hneg, hback⟩ := h
  have hle := behindLine_le hline
  rw [decodeChunkedFrom_line hline, if_neg hneg.ne, if_pos hneg, List.length_drop, if_pos (by omega)]

theorem decodeChunkedFrom_next {pos' : ℕ} (h : NextLine body pos pos') :
    decodeChunkedFrom body.length (fuel + 1) out (body.drop pos) =
      decodeChunkedFrom body.length fuel (out ++ dataAt body pos) (body.drop pos') := by
  cases h with
  | @chunk line size hline hsize hpos hfits =>
    have hdata : dataAt body pos = (body.drop line).take size := by
      unfold dataAt
      rw [hline, hsize]
      rfl
    have hrest : (if crlf.isPrefixOf (body.drop (line + size)) then (body.drop (line + size)).drop 2
        else body.drop (line + size)) = body.drop (behindData body (line + size)) := by
      unfold behindData
      split
      · exact List.drop_drop
      · rfl
    rw [decodeChunkedFrom_line hline, hsize, if_neg (by omega), if_neg (by omega), if_neg, hdata]
    · dsimp only
      rw [Int.toNat_natCast, List.drop_drop, hrest]
    · rw [List.length_drop]
      omega

theorem answers_decodeChunkedFrom (hlen : body.length < 2 ^ 63) :
    ∀ (fuel : ℕ) {out : Bytes} {d : Decoder}, body.length ≤ fuel + d.readPos → Keeps body out d →
      Answers body.length d (decodeChunkedFrom body.length fuel out (body.drop d.readPos))
  | fuel, out, d, hfuel, hk => by
      cases place body d.readPos with
      | ended h =>
        rw [decodeChunkedFrom_ended h, ← hk.written]
        exact .returned (turn_ended hk h)
      | refused h =>
        have hlt := h.1
        obtain ⟨fuel, rfl⟩ : ∃ n, fuel = n + 1 := ⟨fuel - 1, by omega⟩
        rw [decodeChunkedFrom_refused h]
        exact .refused (turn_refused hk hlen h)
      | last hline hsize =>
        have hle := behindLine_le hline
        obtain ⟨fuel, rfl⟩ : ∃ n, fuel = n + 1 := ⟨fuel - 1, by omega⟩
        rw [decodeChunkedFrom_last hline hsize, ← hk.written]
        exact .returned (turn_last hk hline hsize)
      | wraps h =>
        obtain ⟨line, hline, -⟩ := id h
        have hle := behindLine_le hline
        obtain ⟨fuel, rfl⟩ : ∃ n, fuel = n + 1 := ⟨fuel - 1, by omega⟩
        obtain ⟨move, next, hturn, houtside⟩ := turn_wraps hk hlen h
        rw [decodeChunkedFrom_wraps h]
        exact .fault hturn houtside
      | next h =>
        have hlt := h.lt
        obtain ⟨fuel, rfl⟩ : ∃ n, fuel = n + 1 := ⟨fuel - 1, by omega⟩
        obtain ⟨move, next, hturn, hinside, hat, hk'⟩ := turn_next hk hlen h
        have hrec := answers_decodeChunkedFrom hlen fuel (by omega) hk'
        rw [hat] at hrec
        rw [decodeChunkedFrom_next h]
        exact .moved hturn hinside hrec

/-- The loop with its positions answers what `decodeChunked` says. -/
theorem answers_decodeChunked (hlen : body.length < 2 ^ 63) :
    Answers body.length (.start body) (decodeChunked body) :=
  answers_decodeChunkedFrom hlen body.length (Nat.le_add_right _ _) (keeps_start body)

end

end FrostlakeOdbc
