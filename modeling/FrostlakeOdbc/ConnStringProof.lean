import FrostlakeOdbc.Connect

/-!
# What a connection string says

`conn_str_get` finds the first pair of a connection string with the key, among the pairs its loop takes
off the text (`connStrGetFrom_eq`). Here they are compared with the pairs that were written.
-/

namespace FrostlakeOdbc

open CString

/-! ## The pairs that are read -/

/-- A pair as the loop of `conn_str_get` reads it. `place` counts the bytes of the connection string
from its key on. -/
structure ReadPair where
  place : ℕ
  key : Bytes
  value : Bytes

/-- What stands between two pairs. -/
def isGap (c : UInt8) : Bool := c = ch ';' || c = ch ' '

/-- The value that is read behind the `=` of a pair. -/
def valueRead (rest : Bytes) : Bytes :=
  if rest.head? = some (ch '\x7b') then (rest.drop 1).takeWhile (· ≠ ch '\x7d')
  else rest.takeWhile (· ≠ ch ';')

/-- Where the loop goes on. -/
def behindValue (rest : Bytes) : Bytes :=
  ((if rest.head? = some (ch '\x7b') then (rest.drop 1).dropWhile (· ≠ ch '\x7d') else rest).dropWhile
    (· ≠ ch ';')).drop 1

/-- A turn of the loop: the pair it reads and the text behind it. -/
def nextPair (text : Bytes) : Option (ReadPair × Bytes) :=
  let cur := text.dropWhile isGap
  match cur.dropWhile (· ≠ ch '=') with
  | [] => none
  | _ :: rest =>
      some (⟨cur.length, cur.takeWhile (· ≠ ch '='), valueRead rest⟩, behindValue rest)

def pairsFrom : ℕ → Bytes → List ReadPair
  | 0, _ => []
  | fuel + 1, text =>
      match nextPair text with
      | none => []
      | some (p, next) => p :: pairsFrom fuel next

/-- The pairs of a connection string, in the order in which the loop reads them. -/
def pairsRead (text : Bytes) : List ReadPair := pairsFrom text.length text

theorem dropWhile_ne (c : UInt8) (s : Bytes) :
    s.dropWhile (· ≠ c) = [] ∨ (s.dropWhile (· ≠ c)).head? = some c := by
  cases h : s.dropWhile (· ≠ c) with
  | nil => exact .inl rfl
  | cons d rest =>
    have hd := head_dropWhile (p := (· ≠ c)) s d (by rw [h]; rfl)
    rw [of_decide_eq_false hd |> not_not.1]
    exact .inr rfl

theorem dropWhile_ne_cons {c d : UInt8} (h : d ≠ c) (s : Bytes) :
    (d :: s).dropWhile (· ≠ c) = s.dropWhile (· ≠ c) :=
  List.dropWhile_cons_of_pos (decide_eq_true h)

theorem drop_dropWhile (c : UInt8) (s : Bytes) :
    (if (s.dropWhile (· ≠ c)).head? = some c then (s.dropWhile (· ≠ c)).drop 1
      else s.dropWhile (· ≠ c)) = (s.dropWhile (· ≠ c)).drop 1 := by
  obtain h | h := dropWhile_ne c s
  · rw [h]
    rfl
  · rw [if_pos h]

theorem valueRead_eq (rest : Bytes) :
    (if rest.head? = some (ch '\x7b') then rest.drop 1 else rest).takeWhile
      (· ≠ if rest.head? = some (ch '\x7b') then ch '\x7d' else ch ';') = valueRead rest := by
  unfold valueRead
  by_cases hbraced : rest.head? = some (ch '\x7b')
  · simp only [if_pos hbraced]
  · simp only [if_neg hbraced]

/-- The model's turn, in the words of `nextPair`. -/
theorem behindValue_eq (rest : Bytes) :
    let braced := rest.head? = some (ch '\x7b')
    let value := if braced then rest.drop 1 else rest
    let stop := value.dropWhile (· ≠ if braced then ch '\x7d' else ch ';')
    let next := if stop.head? = some (ch '\x7d') then stop.dropWhile (· ≠ ch ';') else stop
    (if next.head? = some (ch ';') then next.drop 1 else next) = behindValue rest := by
  dsimp only
  unfold behindValue
  by_cases hbraced : rest.head? = some (ch '\x7b')
  · simp only [if_pos hbraced]
    obtain hnil | hclose := dropWhile_ne (ch '\x7d') (rest.drop 1)
    · rw [hnil]
      rfl
    · rw [if_pos hclose]
      exact drop_dropWhile _ _
  · simp only [if_neg hbraced]
    have hclose : (rest.dropWhile (· ≠ ch ';')).head? ≠ some (ch '\x7d') := by
      obtain h | h := dropWhile_ne (ch ';') rest <;> rw [h] <;> decide
    rw [if_neg hclose]
    exact drop_dropWhile _ _

/-- `conn_str_get` returns the value of the first pair it reads that has the key. -/
theorem connStrGetFrom_eq (fuel : ℕ) (text key : Bytes) :
    connStrGetFrom fuel text key =
      ((pairsFrom fuel text).find? fun p => strcaseeq p.key key).map ReadPair.value := by
  induction fuel generalizing text with
  | zero => rfl
  | succ fuel ih =>
    cases text with
    | nil => rfl
    | cons c rest =>
      rw [connStrGetFrom, pairsFrom]
      unfold nextPair
      show _ = Option.map _ (List.find? _ _)
      dsimp only
      have hgap : ((c :: rest).dropWhile fun c => decide (c = ch ';') || decide (c = ch ' ')) =
        (c :: rest).dropWhile isGap := rfl
      rw [hgap]
      cases ((c :: rest).dropWhile isGap).dropWhile (· ≠ ch '=') with
      | nil => rfl
      | cons d value =>
        dsimp only
        have hnext := behindValue_eq value
        dsimp only at hnext
        rw [List.find?_cons, hnext, ih, valueRead_eq]
        split
        · next hkey =>
          rw [(strcaseeq_iff _ _).2 hkey]
          rfl
        · next hkey => rw [Bool.eq_false_iff.2 fun h => hkey ((strcaseeq_iff _ _).1 h)]

theorem valueRead_sublist (rest : Bytes) : (valueRead rest).Sublist rest := by
  unfold valueRead
  split
  · exact (List.takeWhile_sublist _).trans (List.drop_sublist 1 rest)
  · exact List.takeWhile_sublist _

theorem behindValue_sublist (rest : Bytes) : (behindValue rest).Sublist rest := by
  unfold behindValue
  refine (List.drop_sublist 1 _).trans ((List.dropWhile_sublist _).trans ?_)
  split
  · exact (List.dropWhile_sublist _).trans (List.drop_sublist 1 rest)
  · exact List.Sublist.refl rest

theorem nextPair_sublist {text next : Bytes} {p : ReadPair} (h : nextPair text = some (p, next)) :
    p.value.Sublist text ∧ next.Sublist text := by
  unfold nextPair at h
  dsimp only at h
  have hcur := (List.dropWhile_sublist (· ≠ ch '=')).trans (List.dropWhile_sublist isGap (l := text))
  cases hat : (text.dropWhile isGap).dropWhile (· ≠ ch '=') with
  | nil =>
    rw [hat] at h
    cases h
  | cons c rest =>
    rw [hat] at h hcur
    cases h
    have hrest := (List.sublist_cons_self c rest).trans hcur
    exact ⟨(valueRead_sublist rest).trans hrest, (behindValue_sublist rest).trans hrest⟩

/-- A value is taken from the connection string. -/
theorem connStrGet_subset {conn value : Bytes} {key : String} (h : connStrGet conn key = some value) :
    value ⊆ conn := by
  have hpairs (fuel : ℕ) (text : Bytes) : ∀ p ∈ pairsFrom fuel text, p.value.Sublist text := by
    induction fuel generalizing text with
    | zero => exact fun p hp => absurd hp List.not_mem_nil
    | succ fuel ih =>
      intro p hp
      rw [pairsFrom] at hp
      cases hnext : nextPair text with
      | none =>
        rw [hnext] at hp
        cases hp
      | some turn =>
        rw [hnext] at hp
        obtain ⟨hvalue, hrest⟩ := nextPair_sublist hnext
        obtain rfl | hp := List.mem_cons.1 hp
        · exact hvalue
        · exact (ih turn.2 p hp).trans hrest
  rw [connStrGet, connStrGetFrom_eq] at h
  obtain ⟨p, hfind, rfl⟩ := Option.map_eq_some_iff.1 h
  exact (hpairs _ _ p (List.mem_of_find?_eq_some hfind)).subset

theorem nextPair_length {text next : Bytes} {p : ReadPair} (h : nextPair text = some (p, next)) :
    p.place ≤ text.length ∧ next.length < text.length := by
  unfold nextPair at h
  dsimp only at h
  have hcur := (List.dropWhile_sublist isGap (l := text)).length_le
  cases hat : (text.dropWhile isGap).dropWhile (· ≠ ch '=') with
  | nil =>
    rw [hat] at h
    cases h
  | cons c rest =>
    have hrest := (List.dropWhile_sublist (· ≠ ch '=') (l := text.dropWhile isGap)).length_le
    have hnext := (behindValue_sublist rest).length_le
    rw [hat] at h hrest
    rw [List.length_cons] at hrest
    cases h
    exact ⟨hcur, by omega⟩

theorem pairsFrom_congr {m n : ℕ} {text : Bytes} (hm : text.length ≤ m) (hn : text.length ≤ n) :
    pairsFrom m text = pairsFrom n text := by
  induction m generalizing n text with
  | zero =>
    cases List.length_eq_zero_iff.1 (Nat.le_zero.1 hm)
    cases n <;> rfl
  | succ m ih =>
    cases n with
    | zero =>
      cases List.length_eq_zero_iff.1 (Nat.le_zero.1 hn)
      rfl
    | succ n =>
      rw [pairsFrom, pairsFrom]
      cases h : nextPair text with
      | none => rfl
      | some turn =>
        have hnext := (nextPair_length h).2
        exact congrArg (turn.1 :: ·) (ih (by omega) (by omega))

theorem pairsRead_of_none {text : Bytes} (h : nextPair text = none) : pairsRead text = [] := by
  unfold pairsRead
  cases text with
  | nil => rfl
  | cons c rest =>
    rw [List.length_cons, pairsFrom, h]

theorem pairsRead_of_some {text next : Bytes} {p : ReadPair} (h : nextPair text = some (p, next)) :
    pairsRead text = p :: pairsRead next := by
  have hnext := (nextPair_length h).2
  unfold pairsRead
  rw [pairsFrom_congr le_rfl (Nat.le_succ text.length), pairsFrom, h]
  exact congrArg (p :: ·) (pairsFrom_congr (by omega) le_rfl)

theorem place_le {text : Bytes} {p : ReadPair} (hp : p ∈ pairsRead text) : p.place ≤ text.length := by
  induction hn : text.length using Nat.strong_induction_on generalizing text with
  | _ n ih =>
    cases h : nextPair text with
    | none =>
      rw [pairsRead_of_none h] at hp
      cases hp
    | some turn =>
      obtain ⟨hplace, hnext⟩ := nextPair_length h
      rw [pairsRead_of_some h] at hp
      obtain rfl | hp := List.mem_cons.1 hp
      · omega
      · have := ih _ (hn ▸ hnext) hp rfl
        omega

theorem nextPair_gap {gap : Bytes} (hgap : ∀ c ∈ gap, isGap c = true) (text : Bytes) :
    nextPair (gap ++ text) = nextPair text := by
  unfold nextPair
  rw [List.dropWhile_append_of_pos hgap]

theorem pairsRead_gap {gap : Bytes} (hgap : ∀ c ∈ gap, isGap c = true) (text : Bytes) :
    pairsRead (gap ++ text) = pairsRead text := by
  cases h : nextPair text with
  | none => rw [pairsRead_of_none h, pairsRead_of_none ((nextPair_gap hgap text).trans h)]
  | some turn => rw [pairsRead_of_some h, pairsRead_of_some ((nextPair_gap hgap text).trans h)]

theorem nextPair_of_notMem {text : Bytes} (h : ch '=' ∉ text) : nextPair text = none := by
  have hnil : (text.dropWhile isGap).dropWhile (· ≠ ch '=') = [] := by
    rw [List.dropWhile_eq_nil_iff]
    intro c hc
    exact decide_eq_true fun heq => h (heq ▸ (List.dropWhile_sublist _).subset hc)
  unfold nextPair
  dsimp only
  rw [hnil]

theorem nextPair_of_mem {text : Bytes} (h : ch '=' ∈ text) :
    ∃ p next, nextPair text = some (p, next) ∧ p.place = (text.dropWhile isGap).length := by
  unfold nextPair
  dsimp only
  cases hat : (text.dropWhile isGap).dropWhile (· ≠ ch '=') with
  | cons c rest => exact ⟨_, _, rfl, rfl⟩
  | nil =>
    rw [List.dropWhile_eq_nil_iff] at hat
    have hmem : ch '=' ∈ text.takeWhile isGap ++ text.dropWhile isGap := by
      rwa [List.takeWhile_append_dropWhile]
    obtain hgap | hcur := List.mem_append.1 hmem
    · exact absurd (List.mem_takeWhile_imp hgap) (by decide)
    · exact absurd (hat _ hcur) (by decide)

/-- A key that is read as it is written. -/
structure IsKey (key : Bytes) : Prop where
  ne : key ≠ []
  head : ∀ c ∈ key.head?, isGap c = false
  clean : ch '=' ∉ key

/-- A key, an `=` and the rest are read as such, whatever the rest is. -/
theorem IsKey.nextPair {key : Bytes} (hkey : IsKey key) (rest : Bytes) :
    nextPair (key ++ ch '=' :: rest) =
      some (⟨(key ++ ch '=' :: rest).length, key, valueRead rest⟩, behindValue rest) := by
  obtain ⟨c, tail, rfl⟩ := List.exists_cons_of_ne_nil hkey.ne
  have hcur : (c :: tail ++ ch '=' :: rest).dropWhile isGap = c :: tail ++ ch '=' :: rest := by
    rw [List.cons_append, List.dropWhile_cons, hkey.head c rfl]
    rfl
  obtain ⟨htake, hdrop⟩ := takeWhile_append_stop (p := (· ≠ ch '=')) (a := c :: tail)
    (s := ch '=' :: rest) (fun d hd => decide_eq_true fun heq => hkey.clean (heq ▸ hd))
    (fun d hd => by cases hd; decide)
  unfold FrostlakeOdbc.nextPair
  dsimp only
  rw [hcur, htake, hdrop]

/-! ## The value that is found -/

/-- The value that is found for a key. -/
def lookUp (text key : Bytes) : Option Bytes :=
  ((pairsRead text).find? fun p => strcaseeq p.key key).map ReadPair.value

/-- `conn_str_get` finds it. -/
theorem connStrGetFrom_eq_lookUp (text key : Bytes) :
    connStrGetFrom text.length text key = lookUp text key :=
  connStrGetFrom_eq text.length text key

theorem lookUp_of_none {text : Bytes} (h : nextPair text = none) (key : Bytes) :
    lookUp text key = none := by
  rw [lookUp, pairsRead_of_none h]
  rfl

theorem lookUp_of_some {text next : Bytes} {p : ReadPair} (h : nextPair text = some (p, next))
    (key : Bytes) :
    lookUp text key = if strcaseeq p.key key then some p.value else lookUp next key := by
  rw [lookUp, pairsRead_of_some h, List.find?_cons]
  cases strcaseeq p.key key <;> rfl

/-! ## The pairs that are written -/

/-- A value that stands in a connection string as it is. -/
def IsPlain (value : Bytes) : Prop := ch ';' ∉ value ∧ value.head? ≠ some (ch '\x7b')

theorem IsPlain.head_append {v s : Bytes} (h : IsPlain v) (hs : ∀ c ∈ s.head?, c = ch ';') :
    (v ++ s).head? ≠ some (ch '\x7b') := by
  cases v with
  | nil =>
    intro hhead
    exact absurd (hs _ hhead) (by decide)
  | cons c v => exact h.2

theorem dropWhile_behind {s : Bytes} (hs : ∀ c ∈ s.head?, c = ch ';') :
    s.dropWhile (· ≠ ch ';') = s := by
  refine (takeWhile_append_stop (a := []) (fun c hc => by cases hc) fun c hc => ?_).2
  rw [hs c hc]
  decide

/-- A plain value is read as it is, up to the semicolon behind it. -/
theorem IsPlain.valueRead {v s : Bytes} (h : IsPlain v) (hs : ∀ c ∈ s.head?, c = ch ';') :
    valueRead (v ++ s) = v ∧ behindValue (v ++ s) = s.drop 1 := by
  have hopen := h.head_append hs
  have hv : ∀ c ∈ v, decide (c ≠ ch ';') = true := fun c hc => decide_eq_true fun heq => h.1 (heq ▸ hc)
  unfold FrostlakeOdbc.valueRead behindValue
  rw [if_neg hopen, if_neg hopen, List.dropWhile_append_of_pos hv, dropWhile_behind hs]
  refine ⟨(takeWhile_append_stop hv fun c hc => ?_).1, rfl⟩
  rw [hs c hc]
  decide

/-- A pair of a connection string, and what stands between the semicolon before it and its key. -/
structure WrittenPair where
  gap : Bytes
  key : Bytes
  value : Bytes
  braced : Bool
  gap_isGap : ∀ c ∈ gap, isGap c = true
  key_ne : key ≠ []
  key_head : key.head? ≠ some (ch ' ')
  key_clean : ch ';' ∉ key ∧ ch '=' ∉ key
  plain : braced = false → IsPlain value

def doubleBrace (c : UInt8) : Bytes := if c = ch '\x7d' then [c, c] else [c]

namespace WrittenPair

variable (e : WrittenPair)

def text : Bytes :=
  if e.braced then ch '\x7b' :: e.value.flatMap doubleBrace ++ [ch '\x7d'] else e.value

def written : Bytes := e.key ++ ch '=' :: e.text

end WrittenPair

/-- What stands behind a pair, with the pairs that follow. -/
def behindPair : List WrittenPair → Bytes
  | [] => []
  | e :: es => ch ';' :: e.gap ++ e.written ++ behindPair es

/-- The connection string of the pairs. -/
def connString : List WrittenPair → Bytes
  | [] => []
  | e :: es => e.written ++ behindPair es

/-- Where the pairs stand. -/
def places : List WrittenPair → List ℕ
  | [] => []
  | e :: es => (connString (e :: es)).length :: places es

/-- What reading the connection string of the pairs is to give: for every key the value of the first
pair with it, and no pair that was not written. -/
structure ReadsRight (es : List WrittenPair) : Prop where
  lookup : ∀ key, connStrGetFrom (connString es).length (connString es) key =
    (es.find? fun e => strcaseeq e.key key).map WrittenPair.value
  places : ∀ p ∈ pairsRead (connString es), p.place ∈ places es

namespace WrittenPair

variable (e : WrittenPair)

/-- What is read of the value. -/
def taken : Bytes := if e.braced then e.value.takeWhile (· ≠ ch '\x7d') else e.value

/-- What is left of the value, behind the brace that is taken for its end. -/
def left : Bytes := if e.braced then (e.value.dropWhile (· ≠ ch '\x7d')).drop 1 else []

end WrittenPair

theorem behindPair_head (es : List WrittenPair) : ∀ c ∈ (behindPair es).head?, c = ch ';' := by
  intro c hc
  cases es with
  | nil => cases hc
  | cons e es =>
    cases hc
    rfl

theorem takeWhile_doubled (v s : Bytes) :
    (v.flatMap doubleBrace ++ ch '\x7d' :: s).takeWhile (· ≠ ch '\x7d') =
      v.takeWhile (· ≠ ch '\x7d') := by
  induction v with
  | nil => rfl
  | cons c v ih =>
    by_cases hc : c = ch '\x7d'
    · subst hc
      rfl
    · rw [List.flatMap_cons, doubleBrace, if_neg hc, List.append_assoc, List.singleton_append,
        List.takeWhile_cons, List.takeWhile_cons, ih]

theorem dropWhile_brace_doubled (v s : Bytes) :
    ((v.flatMap doubleBrace ++ ch '\x7d' :: s).dropWhile (· ≠ ch '\x7d')).dropWhile (· ≠ ch ';') =
      (((v.dropWhile (· ≠ ch '\x7d')).drop 1).flatMap doubleBrace ++ ch '\x7d' :: s).dropWhile
        (· ≠ ch ';') := by
  induction v with
  | nil => rfl
  | cons c v ih =>
    by_cases hc : c = ch '\x7d'
    · subst hc
      rfl
    · rw [List.flatMap_cons, doubleBrace, if_neg hc, List.append_assoc, List.singleton_append,
        dropWhile_ne_cons hc, dropWhile_ne_cons hc, ih]

theorem dropWhile_doubled_of_notMem {q : Bytes} (h : ch ';' ∉ q) (s : Bytes) :
    (q.flatMap doubleBrace ++ s).dropWhile (· ≠ ch ';') = s.dropWhile (· ≠ ch ';') := by
  refine List.dropWhile_append_of_pos fun c hc => decide_eq_true fun heq => h ?_
  obtain ⟨d, hd, hcd⟩ := List.mem_flatMap.1 hc
  have hdc : c = d := by
    unfold doubleBrace at hcd
    split at hcd <;> simpa using hcd
  rwa [← heq, hdc]

theorem dropWhile_doubled_of_mem {q : Bytes} (h : ch ';' ∈ q) (s : Bytes) :
    ((q.flatMap doubleBrace ++ s).dropWhile (· ≠ ch ';')).drop 1 =
      ((q.dropWhile (· ≠ ch ';')).drop 1).flatMap doubleBrace ++ s := by
  induction q with
  | nil => cases h
  | cons c q ih =>
    by_cases hc : c = ch ';'
    · subst hc
      rfl
    · have hmem : ch ';' ∈ q := (List.mem_cons.1 h).resolve_left fun heq => hc heq.symm
      rw [dropWhile_ne_cons hc, ← ih hmem, List.flatMap_cons, doubleBrace]
      split
      · simp only [List.cons_append, List.nil_append, dropWhile_ne_cons hc]
      · simp only [List.cons_append, List.nil_append, dropWhile_ne_cons hc]

/-- A value is read up to the first brace in it, if it is braced. -/
theorem valueRead_text (e : WrittenPair) (es : List WrittenPair) :
    valueRead (e.text ++ behindPair es) = e.taken := by
  unfold WrittenPair.text WrittenPair.taken
  cases hbraced : e.braced with
  | true =>
    unfold valueRead
    simp only [if_true, List.cons_append, List.append_assoc, List.nil_append]
    rw [if_pos (by rfl)]
    exact takeWhile_doubled e.value (behindPair es)
  | false =>
    simp only [Bool.false_eq_true, if_false]
    exact ((e.plain hbraced).valueRead (behindPair_head es)).1

/-- The loop goes on behind the next semicolon, and there is one that is part of the value if there is
one in what is left of it. -/
theorem behindValue_text (e : WrittenPair) (es : List WrittenPair) :
    behindValue (e.text ++ behindPair es) =
      if ch ';' ∈ e.left then
        ((e.left.dropWhile (· ≠ ch ';')).drop 1).flatMap doubleBrace ++ ch '\x7d' :: behindPair es
      else (behindPair es).drop 1 := by
  unfold WrittenPair.text WrittenPair.left
  cases hbraced : e.braced with
  | true =>
    unfold behindValue
    simp only [if_true, List.cons_append, List.append_assoc, List.nil_append]
    rw [if_pos (by rfl), List.drop_succ_cons, List.drop_zero, dropWhile_brace_doubled]
    split
    · next hsemi => rw [dropWhile_doubled_of_mem hsemi]
    · next hsemi =>
      rw [dropWhile_doubled_of_notMem hsemi, dropWhile_ne_cons (by decide),
        dropWhile_behind (behindPair_head es)]
  | false =>
    simp only [Bool.false_eq_true, if_false, List.not_mem_nil]
    exact ((e.plain hbraced).valueRead (behindPair_head es)).2

/-! ## Reading what was written -/

theorem WrittenPair.isKey (e : WrittenPair) : IsKey e.key := by
  refine ⟨e.key_ne, fun c hc => ?_, e.key_clean.2⟩
  have hsemi : c ≠ ch ';' := fun heq => e.key_clean.1 (List.mem_of_mem_head? (heq ▸ hc))
  have hspace : c ≠ ch ' ' := fun heq => e.key_head (heq ▸ hc)
  unfold isGap
  rw [decide_eq_false hsemi, decide_eq_false hspace]
  rfl

theorem connString_cons (e : WrittenPair) (es : List WrittenPair) :
    connString (e :: es) = e.key ++ ch '=' :: (e.text ++ behindPair es) := by
  rw [connString, WrittenPair.written, List.append_assoc, List.cons_append]

theorem nextPair_connString (e : WrittenPair) (es : List WrittenPair) :
    nextPair (connString (e :: es)) =
      some (⟨(connString (e :: es)).length, e.key, e.taken⟩,
        behindValue (e.text ++ behindPair es)) := by
  rw [connString_cons, e.isKey.nextPair, valueRead_text]

theorem pairsRead_behindPair (es : List WrittenPair) :
    pairsRead ((behindPair es).drop 1) = pairsRead (connString es) := by
  cases es with
  | nil => rfl
  | cons e es =>
    rw [behindPair, List.cons_append, List.cons_append, List.drop_succ_cons, List.drop_zero,
      List.append_assoc, pairsRead_gap e.gap_isGap, connString]

theorem length_connString_le (es : List WrittenPair) :
    (connString es).length ≤ (behindPair es).length := by
  cases es with
  | nil => exact le_rfl
  | cons e es =>
    rw [behindPair, connString]
    simp only [List.length_append, List.length_cons]
    omega

theorem length_behindPair_lt (e : WrittenPair) (es : List WrittenPair) :
    (behindPair es).length < (connString (e :: es)).length := by
  rw [connString_cons]
  simp only [List.length_append, List.length_cons]
  omega

theorem le_of_mem_places {es : List WrittenPair} {n : ℕ} (h : n ∈ places es) :
    n ≤ (connString es).length := by
  induction es with
  | nil => cases h
  | cons e es ih =>
    obtain rfl | h := List.mem_cons.1 h
    · exact le_rfl
    · have hbehind := length_connString_le es
      have hlt := length_behindPair_lt e es
      have := ih h
      omega

/-- Behind the pair the loop comes to the next pair, or to nothing it reads. -/
def WrittenPair.Resumes (e : WrittenPair) (after : List WrittenPair) : Prop :=
  ch ';' ∈ e.left → after = [] ∧ ch '=' ∉ e.left.dropWhile (· ≠ ch ';')

theorem mem_doubled {c : UInt8} {v : Bytes} : c ∈ v.flatMap doubleBrace ↔ c ∈ v := by
  have hc (d : UInt8) : c ∈ doubleBrace d ↔ c = d := by
    unfold doubleBrace
    split <;> simp
  simp only [List.mem_flatMap, hc]
  exact ⟨fun ⟨d, hd, heq⟩ => heq ▸ hd, fun h => ⟨c, h, rfl⟩⟩

theorem mem_drop_one {c d : UInt8} {s : Bytes} (hs : ∀ a ∈ s.head?, a = d) (hne : c ≠ d) :
    c ∈ s.drop 1 ↔ c ∈ s := by
  cases s with
  | nil => rfl
  | cons a s =>
    have ha := hs a rfl
    rw [List.drop_succ_cons, List.drop_zero, List.mem_cons, or_iff_right fun h => hne (h.trans ha)]

theorem equals_mem_behindPair (es : List WrittenPair) : ch '=' ∈ behindPair es ↔ es ≠ [] := by
  cases es with
  | nil => exact ⟨fun h => absurd h List.not_mem_nil, fun h => absurd rfl h⟩
  | cons e es =>
    refine iff_of_true ?_ (List.cons_ne_nil _ _)
    rw [behindPair, WrittenPair.written]
    simp

/-- What the loop goes on with inside of a value has an `=` unless the pair resumes. -/
theorem resumes_iff {e : WrittenPair} {es : List WrittenPair} (h : ch ';' ∈ e.left) :
    e.Resumes es ↔
      ch '=' ∉ ((e.left.dropWhile (· ≠ ch ';')).drop 1).flatMap doubleBrace ++
        ch '\x7d' :: behindPair es := by
  have hhead : ∀ a ∈ (e.left.dropWhile (· ≠ ch ';')).head?, a = ch ';' := fun a ha =>
    not_not.1 (of_decide_eq_false (head_dropWhile (p := (· ≠ ch ';')) _ a ha))
  have hbrace : ch '=' ≠ ch '\x7d' := by decide
  rw [WrittenPair.Resumes, List.mem_append, mem_doubled, mem_drop_one hhead (by decide),
    List.mem_cons, equals_mem_behindPair, or_iff_right hbrace, not_or, not_not, and_comm]
  exact ⟨fun hr => hr h, fun hr _ => hr⟩

/-- A pair behind which the loop resumes is read, and then the pairs behind it are. -/
theorem pairsRead_of_resumes {e : WrittenPair} {es : List WrittenPair} (h : e.Resumes es) :
    pairsRead (connString (e :: es)) =
      ⟨(connString (e :: es)).length, e.key, e.taken⟩ :: pairsRead (connString es) := by
  rw [pairsRead_of_some (nextPair_connString e es), behindValue_text]
  refine congrArg (_ :: ·) ?_
  split
  · next hsemi =>
    rw [pairsRead_of_none (nextPair_of_notMem ((resumes_iff hsemi).1 h)), (h hsemi).1]
    rfl
  · exact pairsRead_behindPair es

theorem length_dropWhile_append {p : UInt8 → Bool} {c : UInt8} (hc : p c = false) (a s : Bytes) :
    s.length < ((a ++ c :: s).dropWhile p).length := by
  induction a with
  | nil =>
    rw [List.nil_append, List.dropWhile_cons, hc]
    simp
  | cons d a ih =>
    rw [List.cons_append, List.dropWhile_cons]
    split
    · exact ih
    · simp only [List.length_cons, List.length_append]
      omega

/-- Behind any other pair the loop reads a part of its value as a pair. -/
theorem exists_pair_inside {e : WrittenPair} {es : List WrittenPair} (h : ¬e.Resumes es) :
    ∃ p ∈ pairsRead (connString (e :: es)),
      (behindPair es).length < p.place ∧ p.place < (connString (e :: es)).length := by
  have hsemi : ch ';' ∈ e.left := not_not.1 fun hno => h fun hyes => absurd hyes hno
  have hequals := mt (resumes_iff hsemi).2 h
  obtain ⟨p, next, hnext, hplace⟩ := nextPair_of_mem (not_not.1 hequals)
  have hfirst := nextPair_connString e es
  rw [behindValue_text, if_pos hsemi] at hfirst
  refine ⟨p, ?_, ?_, ?_⟩
  · rw [pairsRead_of_some hfirst, pairsRead_of_some hnext]
    exact List.mem_cons_of_mem _ List.mem_cons_self
  · rw [hplace]
    exact length_dropWhile_append (by decide) _ _
  · exact (nextPair_length hnext).1.trans_lt (nextPair_length hfirst).2

/-- The loop reads no pair that was not written if it resumes behind every pair, and only then. -/
theorem places_iff (es : List WrittenPair) :
    (∀ p ∈ pairsRead (connString es), p.place ∈ places es) ↔
      ∀ e after, e :: after <:+ es → e.Resumes after := by
  induction es with
  | nil =>
    refine iff_of_true (fun p hp => by cases hp) fun e after h => ?_
    exact absurd (List.suffix_nil.1 h) (List.cons_ne_nil _ _)
  | cons e es ih =>
    have hsuffix : (∀ f after, f :: after <:+ e :: es → f.Resumes after) ↔
        e.Resumes es ∧ ∀ f after, f :: after <:+ es → f.Resumes after := by
      simp only [List.suffix_cons_iff, List.cons.injEq]
      exact ⟨fun h => ⟨h e es (.inl ⟨rfl, rfl⟩), fun f after hf => h f after (.inr hf)⟩,
        fun ⟨he, hes⟩ f after hf => hf.elim (fun ⟨h₁, h₂⟩ => h₁ ▸ h₂ ▸ he) (hes f after)⟩
    rw [hsuffix, ← ih]
    by_cases hresumes : e.Resumes es
    · rw [pairsRead_of_resumes hresumes, and_iff_right hresumes, List.forall_mem_cons]
      constructor
      · rintro ⟨-, h⟩ p hp
        refine (List.mem_cons.1 (h p hp)).resolve_left fun heq => ?_
        have hle := place_le hp
        have hbehind := length_connString_le es
        have hlt := length_behindPair_lt e es
        omega
      · exact fun h => ⟨List.mem_cons_self, fun p hp => List.mem_cons_of_mem _ (h p hp)⟩
    · refine iff_of_false (fun h => ?_) fun h => hresumes h.1
      obtain ⟨p, hp, hbehind, hlt⟩ := exists_pair_inside hresumes
      obtain heq | hmem := List.mem_cons.1 (h p hp)
      · omega
      · have hle := le_of_mem_places hmem
        have hes := length_connString_le es
        omega

/-! ## The lookup -/

theorem taken_eq_iff (e : WrittenPair) :
    e.taken = e.value ↔ (e.braced = true → ch '\x7d' ∉ e.value) := by
  unfold WrittenPair.taken
  cases e.braced with
  | false => exact iff_of_true rfl fun h => by cases h
  | true =>
    rw [if_pos rfl, List.takeWhile_eq_self_iff]
    exact ⟨fun h _ hmem => of_decide_eq_true (h _ hmem) rfl,
      fun h c hc => decide_eq_true fun heq => h rfl (heq ▸ hc)⟩

theorem lookUp_of_resumes {es : List WrittenPair} (h : ∀ e after, e :: after <:+ es → e.Resumes after)
    (key : Bytes) :
    lookUp (connString es) key =
      (es.find? fun e => strcaseeq e.key key).map WrittenPair.taken := by
  induction es with
  | nil => rfl
  | cons e es ih =>
    rw [lookUp, pairsRead_of_resumes (h e es List.suffix_rfl), List.find?_cons, List.find?_cons]
    cases strcaseeq e.key key with
    | true => rfl
    | false => exact ih fun f after hf => h f after (hf.trans (List.suffix_cons e es))

theorem strcaseeq_self (a : Bytes) : strcaseeq a a = true := decide_eq_true rfl

theorem strcaseeq_trans {a b c : Bytes} (hab : strcaseeq a b = true) (hbc : strcaseeq b c = true) :
    strcaseeq a c = true :=
  decide_eq_true ((of_decide_eq_true hab).trans (of_decide_eq_true hbc))

/-- Every lookup finds a value that is read in full if a value with a brace in it stands behind one
with the same key. -/
theorem find_taken_iff (es : List WrittenPair) :
    (∀ key, (es.find? fun e => strcaseeq e.key key).map WrittenPair.taken =
        (es.find? fun e => strcaseeq e.key key).map WrittenPair.value) ↔
      ∀ before e after, es = before ++ e :: after → e.braced = true → ch '\x7d' ∈ e.value →
        ∃ f ∈ before, strcaseeq f.key e.key = true := by
  constructor
  · intro h before e after hes hbraced hmem
    by_contra hno
    have hfind : (es.find? fun f => strcaseeq f.key e.key) = some e := by
      rw [List.find?_eq_some_iff_append]
      refine ⟨strcaseeq_self e.key, before, after, hes, fun f hf => ?_⟩
      exact Bool.not_eq_true' _ ▸ Bool.eq_false_iff.2 fun hsame => hno ⟨f, hf, hsame⟩
    have htaken := h e.key
    rw [hfind] at htaken
    exact (taken_eq_iff e).1 (Option.some.inj htaken) hbraced hmem
  · intro h key
    cases hfind : es.find? fun e => strcaseeq e.key key with
    | none => rfl
    | some e =>
      obtain ⟨hkey, before, after, hes, hbefore⟩ := List.find?_eq_some_iff_append.1 hfind
      refine congrArg some ((taken_eq_iff e).2 fun hbraced hmem => ?_)
      obtain ⟨f, hf, hsame⟩ := h before e after hes hbraced hmem
      have hfirst := hbefore f hf
      rw [strcaseeq_trans hsame hkey] at hfirst
      cases hfirst

/-- The pairs whose braced values do no harm. One with a closing brace in its value stands behind one
with the same key, and no semicolon of the value stands behind that brace, unless the pair is the last
one and has no `=` from there on. -/
structure Unharmed (es : List WrittenPair) : Prop where
  shadowed : ∀ before e after, es = before ++ e :: after → e.braced = true → ch '\x7d' ∈ e.value →
    ∃ f ∈ before, strcaseeq f.key e.key = true
  resumes : ∀ e after, e :: after <:+ es → e.Resumes after

/-- When the connection string of some pairs is read as it was written. -/
theorem readsRight_iff (es : List WrittenPair) : ReadsRight es ↔ Unharmed es := by
  have hlookup (hresumes : ∀ e after, e :: after <:+ es → e.Resumes after) (key : Bytes) :
      connStrGetFrom (connString es).length (connString es) key =
        (es.find? fun e => strcaseeq e.key key).map WrittenPair.taken :=
    (connStrGetFrom_eq_lookUp _ _).trans (lookUp_of_resumes hresumes key)
  constructor
  · rintro ⟨hvalues, hplaces⟩
    have hresumes := (places_iff es).1 hplaces
    refine ⟨(find_taken_iff es).1 fun key => ?_, hresumes⟩
    rw [← hlookup hresumes, hvalues]
  · rintro ⟨hshadowed, hresumes⟩
    refine ⟨fun key => ?_, (places_iff es).2 hresumes⟩
    rw [hlookup hresumes, (find_taken_iff es).2 hshadowed]

/-- A database whose name is the text `x` and `;Server=evil` behind a brace. -/
def bracedDatabase : WrittenPair where
  gap := []
  key := lit "Database"
  value := lit "x\x7d;Server=evil"
  braced := true
  gap_isGap c h := absurd h List.not_mem_nil
  key_ne := by decide
  key_head := by decide
  key_clean := by decide
  plain h := absurd h (by decide)

/-- A part of the name is read as the server. -/
theorem not_readsRight_bracedDatabase :
    ¬ReadsRight [bracedDatabase] ∧
      connStrGet (connString [bracedDatabase]) "Database" = some (lit "x") ∧
      connStrGet (connString [bracedDatabase]) "Server" = some (lit "evil\x7d") := by
  refine ⟨fun h => ?_, by decide, by decide⟩
  have hserver := h.lookup (lit "Server")
  revert hserver
  decide

end FrostlakeOdbc
