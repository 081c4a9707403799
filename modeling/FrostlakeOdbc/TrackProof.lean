import FrostlakeOdbc.CurrentCatalog
import FrostlakeOdbc.NotingLaw

/-!
# What tracking says of a pack

`track_context` reads a request from the front: a request that does not begin with a USE moves
nothing, and one that does gives all of its text as the name (`trackContext_usedName`). Its statements one
by one leave the names that they give last (`ExecutedEach.context`). The two agree where the name
takes nothing in that is not of the first statement, or where the statements behind the first change
nothing (`tracksPack_iff`).
-/

namespace FrostlakeOdbc

open CString Scan Exchange Client JsonText

/-! ## What is read of a request -/

/-- The white space that `track_context` steps over. -/
def isLead (c : UInt8) : Bool := c = ch ' ' || c = ch '\t' || c = ch '\n' || c = ch '\r'

/-- What it takes off the end of a name. -/
def isTail (c : UInt8) : Bool := c = ch ';' || c = ch ' ' || c = ch '\n' || c = ch '\r'

/-- What follows the words of a USE at the start of a request. -/
def behind (words sql : Bytes) : Option Bytes :=
  if strncaseeq (sql.dropWhile isLead) words words.length then
    some ((sql.dropWhile isLead).drop words.length)
  else none

/-- The part of it that is taken for a name. -/
def nameText (rest : Bytes) : Bytes := trimEnd isTail (rest.dropWhile fun c => c = ch ' ')

/-- The name that a request gives to be tracked. -/
def usedName (words sql : Bytes) : Option Bytes := (behind words sql).bind trackedName

def databaseWords : Bytes := lit "USE DATABASE "

def schemaWords : Bytes := lit "USE SCHEMA "

theorem trackedName_congr {a b : Bytes} (h : nameText a = nameText b) : trackedName a = trackedName b := by
  unfold nameText isTail at h
  unfold trackedName
  dsimp only
  rw [h]

theorem strncaseeq_self_iff {s words : Bytes} :
    strncaseeq s words words.length = true ↔
      (s.take words.length).map toUpper = words.map toUpper := by
  rw [strncaseeq, decide_eq_true_eq, List.take_length (l := words)]

/-- The words of the two USEs that are tracked. -/
def trackWords : List Bytes := [databaseWords, schemaWords]

/-- A request is a USE of one kind at most. -/
theorem behind_of_ne {words words' sql rest : Bytes} (hwords : words ∈ trackWords)
    (hwords' : words' ∈ trackWords) (hne : words' ≠ words) (h : behind words sql = some rest) :
    behind words' sql = none := by
  unfold behind at h ⊢
  split at h
  · next hfirst =>
    rw [if_neg]
    intro hother
    rw [strncaseeq_self_iff] at hfirst hother
    -- the fifth character tells the words apart
    have hat : ∀ words : Bytes, 4 < words.length →
        ((sql.dropWhile isLead).take words.length).map toUpper = words.map toUpper →
          ((sql.dropWhile isLead)[4]?).map toUpper = (words[4]?).map toUpper := by
      intro words hlen heq
      have hget := congrArg (fun l : Bytes => l[4]?) heq
      simpa [List.getElem?_take_of_lt hlen] using hget
    have hlen : ∀ words ∈ trackWords, 4 < words.length := by decide
    have hsame := (hat words (hlen words hwords) hfirst).symm.trans (hat words' (hlen words' hwords') hother)
    have hapart : ∀ words ∈ trackWords, ∀ words' ∈ trackWords,
        (words[4]?).map toUpper = (words'[4]?).map toUpper → words' = words := by decide
    exact hne (hapart words hwords words' hwords' hsame)
  · cases h

/-- `track_context` sets what the request gives a name for. -/
theorem trackContext_usedName (dbc : Dbc) (sql : Bytes) :
    trackContext dbc sql =
      { dbc with
        database := (usedName databaseWords sql).or dbc.database
        schema := (usedName schemaWords sql).or dbc.schema } := by
  have hlead : (fun c => decide (c = ch ' ') || decide (c = ch '\t') || decide (c = ch '\n') ||
      decide (c = ch '\r')) = isLead := rfl
  have hdatabase : ∀ s : Bytes, strncaseeq s (lit "USE DATABASE ") 13 =
      strncaseeq s databaseWords databaseWords.length := fun _ => rfl
  have hschema : ∀ s : Bytes, strncaseeq s (lit "USE SCHEMA ") 11 =
      strncaseeq s schemaWords schemaWords.length := fun _ => rfl
  unfold trackContext
  dsimp only
  rw [hlead, hdatabase, hschema]
  by_cases hd : strncaseeq (sql.dropWhile isLead) databaseWords databaseWords.length = true
  · have hbehind : behind databaseWords sql = some ((sql.dropWhile isLead).drop 13) := if_pos hd
    have hnone := behind_of_ne (by decide) (by decide : schemaWords ∈ trackWords) (by decide) hbehind
    rw [if_pos hd, usedName, usedName, hbehind, hnone, Option.bind_some]
    cases trackedName ((sql.dropWhile isLead).drop 13) <;> rfl
  · have hnone : behind databaseWords sql = none := if_neg hd
    rw [if_neg hd, usedName, usedName, hnone]
    by_cases hs : strncaseeq (sql.dropWhile isLead) schemaWords schemaWords.length = true
    · have hbehind : behind schemaWords sql = some ((sql.dropWhile isLead).drop 11) := if_pos hs
      rw [if_pos hs, hbehind, Option.bind_some]
      cases trackedName ((sql.dropWhile isLead).drop 11) <;> rfl
    · have hnone : behind schemaWords sql = none := if_neg hs
      rw [if_neg hs, hnone]
      rfl

/-! ## A session that is kept -/

/-- The monitor of the exchanges that leave the session where it is. -/
def keepWatch : Monitor Request HttpReply Unit where
  next _ _ _ := ()
  allows _ _ := True
  admits _ q reply := takesSession q reply = false

theorem admits_keepWatch {t : Trace} (h : ∀ e ∈ t, takesSession e.1 e.2 = false) :
    keepWatch.Admits () t := by
  induction t with
  | nil => trivial
  | cons e t ih =>
    obtain ⟨he, ht⟩ := List.forall_mem_cons.1 h
    exact ⟨he, ih ht⟩

/-- The same current database and schema. -/
def SameContext (a b : Dbc) : Prop := a.database = b.database ∧ a.schema = b.schema

theorem context_absorbed {p : Post} {reply : HttpReply} {root : Value}
    (hans : answerTo p reply = some root) (hkept : takesSession (.post p) reply = false) :
    SameContext (p.absorbed root) p.dbc := by
  unfold takesSession at hkept
  dsimp only at hkept
  rw [Bool.or_eq_false_iff, hans, Option.any_some] at hkept
  obtain ⟨tracks, heq⟩ := absorbSession_of_not_replaces p.dbc root p.dbc.sessionId.isSome hkept.2
  unfold Post.absorbed
  rw [heq]
  exact ⟨rfl, rfl⟩

theorem context_flSessionNote (dbc : Dbc) (sql : Bytes) : SameContext (flSessionNote dbc sql) dbc := by
  obtain ⟨_, _, h⟩ := flSessionNote_eq dbc sql
  rw [h]
  exact ⟨rfl, rfl⟩

theorem SameContext.trans {a b c : Dbc} (h : SameContext a b) (h' : SameContext b c) :
    SameContext a c := ⟨h.1.trans h'.1, h.2.trans h'.2⟩

theorem postsKeep_context (dbc : Dbc) : PostsKeep keepWatch fun d _ => SameContext d dbc where
  allows _ := trivial
  lost {p g reply} _ hkept hloses := by
    have hkept : takesSession (.post p) reply = false := hkept
    unfold takesSession at hkept
    dsimp only at hkept
    rw [hloses, Bool.true_or] at hkept
    cases hkept
  failed hd _ _ _ := hd
  absorbed hd hkept hans := (context_absorbed hans hkept).trans hd
  noted sql hd := (context_flSessionNote _ sql).trans hd
  settled hd := hd

/-- A statement on a session that is kept moves neither. -/
theorem context_execute {dbc : Dbc} {sql : Bytes} {count : ℤ} {flags : ExecFlags} {t : Trace}
    {a : Result × Dbc} (hruns : Runs (flProtoExecuteAs dbc sql count flags) t a)
    (hkept : ∀ e ∈ t, takesSession e.1 e.2 = false) : SameContext a.2 dbc := by
  have hholds := (postsKeep_context dbc).holds_execute (g := ()) ⟨rfl, rfl⟩ sql count flags
  exact (hholds.runs hruns (admits_keepWatch hkept)).2

/-! ## Statements of their own -/

/-- `ExecutedEach texts dbc d`: each of the texts is executed as a request of its own and succeeds,
one after the other, on a session that is kept. -/
inductive ExecutedEach : List Bytes → Dbc → Dbc → Prop where
  | nil (dbc : Dbc) : ExecutedEach [] dbc dbc
  | cons {stmt stmt' : Stmt} {text : Bytes} {texts : List Bytes} {dbc d d' : Dbc} {t : Trace}
      (hruns : Runs (runSql stmt text dbc) t (.ok (), stmt', d))
      (hkept : ∀ e ∈ t, takesSession e.1 e.2 = false) (h : ExecutedEach texts d d') :
      ExecutedEach (text :: texts) dbc d'

/-- The last name that the texts give. -/
def lastUsed (words : Bytes) (texts : List Bytes) : Option Bytes :=
  (texts.filterMap (usedName words)).getLast?

theorem lastUsed_cons (words text : Bytes) (texts : List Bytes) :
    lastUsed words (text :: texts) = (lastUsed words texts).or (usedName words text) := by
  unfold lastUsed
  cases hused : usedName words text with
  | none => rw [List.filterMap_cons_none hused, Option.or_none]
  | some name =>
    rw [List.filterMap_cons_some hused, List.getLast?_cons]
    cases (texts.filterMap (usedName words)).getLast? <;> rfl

theorem ExecutedEach.context {texts : List Bytes} {dbc d : Dbc} (h : ExecutedEach texts dbc d) :
    d.database = (lastUsed databaseWords texts).or dbc.database ∧
      d.schema = (lastUsed schemaWords texts).or dbc.schema := by
  induction h with
  | nil dbc => exact ⟨rfl, rfl⟩
  | @cons stmt stmt' text texts dbc d d' t hruns hkept _ ih =>
    obtain ⟨response, answered, hexec, rfl⟩ := runSql_ok hruns
    obtain ⟨hdatabase, hschema⟩ := context_execute hexec hkept
    rw [trackContext_usedName] at ih
    dsimp only at ih hdatabase hschema
    rw [hdatabase, hschema] at ih
    rw [lastUsed_cons, lastUsed_cons, Option.or_assoc, Option.or_assoc]
    exact ih

/-- No answer of these takes the session away. -/
theorem takesSession_okReply (q : Request) : takesSession q okReply = false := by
  cases q with
  | post p =>
    have hparse : flJsonParse (cstr (lit "\x7b\"success\":true\x7d")) =
        some (.object [(lit "success", .bool true)]) := rfl
    have hnot : ∀ sent, refusesSession sent 200 (.object [(lit "success", .bool true)]) = false := by
      decide
    unfold takesSession losesSession answerTo okReply
    dsimp only
    rw [hparse, Option.any_some, hnot, Option.filter_some, hnot, Bool.not_false, if_pos rfl,
      Option.any_some]
    cases p.dbc.sessionId.isSome <;> rfl
  | get => rfl
  | delete => rfl

theorem exists_executedEach (texts : List Bytes) (dbc : Dbc) : ∃ d, ExecutedEach texts dbc d := by
  induction texts generalizing dbc with
  | nil => exact ⟨dbc, .nil dbc⟩
  | cons text texts ih =>
    obtain ⟨t, stmt', d, hruns, hok, -⟩ := exists_runs_runSql freshStmt text dbc
    obtain ⟨d', hd'⟩ := ih d
    refine ⟨d', .cons hruns (fun e he => ?_) hd'⟩
    rw [hok e he]
    exact takesSession_okReply e.1

/-! ## What a name takes in -/

theorem isLead_facts {c : UInt8} (h : isLead c = true) :
    isPlain c = true ∧ c ≠ ch ';' ∧ isBlank c = true := by
  revert h
  apply forall_byte (P := fun c => isLead c = true → isPlain c = true ∧ c ≠ ch ';' ∧ isBlank c = true)
  decide +kernel

theorem exists_trimEnd (p : UInt8 → Bool) (s : Bytes) :
    ∃ e, s = trimEnd p s ++ e ∧ ∀ c ∈ e, p c = true := by
  refine ⟨(s.reverse.takeWhile p).reverse, ?_, fun c hc => ?_⟩
  · unfold trimEnd
    rw [← List.reverse_append, List.takeWhile_append_dropWhile, List.reverse_reverse]
  · exact List.mem_takeWhile_imp (List.mem_reverse.1 hc)

/-- What is taken off the end is no part of the name. -/
theorem nameText_append {e : Bytes} (he : ∀ c ∈ e, isTail c = true) (a : Bytes) :
    nameText (a ++ e) = nameText a := by
  unfold nameText
  rw [List.dropWhile_append]
  split
  · next hnil =>
    rw [List.isEmpty_iff.1 hnil]
    have htail : ∀ c ∈ e.dropWhile fun c => c = ch ' ', isTail c = true := fun c hc =>
      he c ((List.dropWhile_suffix _).subset hc)
    exact trimEnd_append htail []
  · exact trimEnd_append he _

theorem isLetter_facts {c : UInt8} (h : isUpper (toUpper c) = true) :
    isTail c = false ∧ isNameChar c = true ∧ c ≠ ch '-' ∧ c ∉ special := by
  revert h
  apply forall_byte (P := fun c => isUpper (toUpper c) = true →
    isTail c = false ∧ isNameChar c = true ∧ c ≠ ch '-' ∧ c ∉ special)
  decide +kernel

/-- What is a capital or a blank in capitals. -/
theorem ofWords_facts {c : UInt8} (h : isUpper (toUpper c) = true ∨ toUpper c = ch ' ') :
    c ≠ ch '-' ∧ c ∉ special := by
  obtain h | h := h
  · exact (isLetter_facts h).2.2
  · rw [eq_of_toUpper_eq (by decide) h]
    decide

/-- In capitals or not, the words of a USE are a bland text and a blank. -/
theorem exists_stem {words w : Bytes} (hwords : words ∈ trackWords)
    (h : w.map toUpper = words.map toUpper) : ∃ stem, w = stem ++ [ch ' '] ∧ bland stem = true := by
  have hfacts : ∀ words ∈ trackWords, words.map toUpper = words.dropLast.map toUpper ++ [ch ' '] ∧
      ∀ c ∈ words.map toUpper, isUpper c = true ∨ c = ch ' ' := by decide +kernel
  obtain ⟨hlast, hcapitals⟩ := hfacts words hwords
  rw [← h] at hcapitals
  obtain ⟨stem, last, rfl, -, hblank⟩ := List.map_eq_append_iff.1 (h.trans hlast)
  obtain ⟨c, rfl, hc⟩ := List.map_eq_singleton_iff.1 hblank
  refine ⟨stem, by rw [eq_of_toUpper_eq (by decide) hc], bland_of_forall fun d hd => ofWords_facts ?_⟩
  exact hcapitals _ (List.mem_map_of_mem (List.mem_append_left _ hd))

/-- What stands before the name in a USE is cut the same way whatever follows. -/
theorem exists_front {words sql rest : Bytes} (hwords : words ∈ trackWords)
    (h : behind words sql = some rest) :
    ∃ front, sql = front ++ rest ∧ (∀ x, behind words (front ++ x) = some x) ∧ ch ';' ∉ front ∧
      ∃ l, ∀ x, Scans flSqlSkip (front ++ x) l x := by
  unfold behind at h
  split at h
  case isFalse => cases h
  case isTrue hsame =>
  obtain rfl := Option.some.inj h
  rw [strncaseeq_self_iff] at hsame
  have hlength : ((sql.dropWhile isLead).take words.length).length = words.length := by
    simpa using congrArg List.length hsame
  have hlead : ∀ c ∈ sql.takeWhile isLead, isLead c = true := fun c hc => List.mem_takeWhile_imp hc
  obtain ⟨stem, hstem, hbland⟩ := exists_stem hwords hsame
  have hhead : ∀ x, ∀ c ∈ (stem ++ [ch ' '] ++ x).head?, isLead c = false := by
    intro x c hc
    apply head_dropWhile sql
    rw [← List.take_append_drop words.length (sql.dropWhile isLead), hstem]
    cases stem with
    | nil => exact hc
    | cons d stem => exact hc
  rw [hstem] at hsame hlength
  refine ⟨sql.takeWhile isLead ++ (stem ++ [ch ' ']), ?_, fun x => ?_, ?_, ?_⟩
  · rw [← hstem, List.append_assoc, List.take_append_drop, List.takeWhile_append_dropWhile]
  · have hdrop : (sql.takeWhile isLead ++ (stem ++ [ch ' '] ++ x)).dropWhile isLead =
        stem ++ [ch ' '] ++ x := (takeWhile_append_stop hlead (hhead x)).2
    unfold behind
    rw [List.append_assoc, hdrop, if_pos, ← hlength, List.drop_left]
    rw [strncaseeq_self_iff, ← hlength, List.take_left]
    exact hsame
  · intro hmem
    rcases List.mem_append.1 hmem with hmem | hmem
    · exact (isLead_facts (hlead _ hmem)).2.1 rfl
    · rcases List.mem_append.1 hmem with hmem | hmem
      · exact notMem_special_of_bland hbland hmem (by decide)
      · exact absurd (List.mem_singleton.1 hmem) (by decide)
  · refine ⟨(sql.takeWhile isLead).map (fun c => [c]) ++ segments flSqlSkip (stem ++ [ch ' ']),
      fun x => ?_⟩
    rw [List.append_assoc]
    exact (scans_plain (fun c hc => (isLead_facts (hlead c hc)).1) _).append (scans_bland_blank hbland x)

/-- The text is one statement, and there is no comment in it. -/
def OneName (text : Bytes) : Prop :=
  ∀ seg ∈ segments flSqlSkip text, seg ≠ [ch ';'] ∧ opensComment seg = false

/-- A USE begins with a letter. -/
theorem exists_letter {words text rest : Bytes} (hwords : words ∈ trackWords)
    (h : behind words text = some rest) :
    ∃ c tail, text.dropWhile isLead = c :: tail ∧ isUpper (toUpper c) = true := by
  unfold behind at h
  split at h
  case isFalse => cases h
  case isTrue hsame =>
  rw [strncaseeq_self_iff] at hsame
  have hcapital : ∀ words ∈ trackWords, (words.map toUpper).head?.any isUpper = true := by decide
  have hhead := hcapital words hwords
  rw [← hsame] at hhead
  cases hs : text.dropWhile isLead with
  | nil =>
    rw [hs, List.take_nil] at hhead
    cases hhead
  | cons c tail =>
    obtain ⟨n, hn⟩ : ∃ n, words.length = n + 1 := by
      have hlen : ∀ words ∈ trackWords, words.length ≠ 0 := by decide
      exact Nat.exists_eq_succ_of_ne_zero (hlen words hwords)
    rw [hs, hn, List.take_succ_cons, List.map_cons, List.head?_cons, Option.any_some] at hhead
    exact ⟨c, tail, rfl, hhead⟩

theorem usedName_of_behind {words text : Bytes} (h : ∀ rest, behind words text ≠ some rest) :
    usedName words text = none := by
  rw [usedName, Option.eq_none_iff_forall_ne_some.2 h]
  rfl

/-- A text of what is taken off the end gives no name. -/
theorem usedName_of_tail {words text : Bytes} (hwords : words ∈ trackWords)
    (htext : ∀ c ∈ text, isTail c = true) : usedName words text = none := by
  refine usedName_of_behind fun rest hbehind => ?_
  obtain ⟨c, tail, hdrop, hupper⟩ := exists_letter hwords hbehind
  have hmem : c ∈ text.dropWhile isLead := hdrop ▸ List.mem_cons_self
  have htail := htext c ((List.dropWhile_suffix _).subset hmem)
  rw [(isLetter_facts hupper).1] at htail
  cases htail

/-- Where the name is of one statement, the first statement gives what the request does, and those
behind it give nothing. -/
theorem packTexts_of_oneName {words sql rest : Bytes} (hwords : words ∈ trackWords)
    (h : behind words sql = some rest) (hname : OneName (nameText rest)) :
    ∃ first more, packTexts sql = first :: more ∧
      (∀ words' ∈ trackWords, usedName words' first = usedName words' sql) ∧
        ∀ words' ∈ trackWords, ∀ text ∈ more, usedName words' text = none := by
  obtain ⟨front, rfl, hfront, hsemi, l, hscan⟩ := exists_front hwords h
  obtain ⟨ends, hsplit, hends⟩ := exists_trimEnd isTail (rest.dropWhile fun c => c = ch ' ')
  have hrest : rest = rest.takeWhile (fun c => c = ch ' ') ++ nameText rest ++ ends := by
    rw [List.append_assoc]
    unfold nameText
    rw [← hsplit, List.takeWhile_append_dropWhile]
  have hblanks : ∀ c ∈ rest.takeWhile fun c => c = ch ' ', isPlain c = true ∧ c ≠ ch ';' := by
    intro c hc
    have hblank : c = ch ' ' :=
      of_decide_eq_true (List.mem_takeWhile_imp (p := fun c => decide (c = ch ' ')) hc)
    rw [hblank]
    decide
  generalize rest.takeWhile (fun c => c = ch ' ') = blanks at hrest hblanks
  generalize nameText rest = name at hrest hname
  subst hrest
  have hsegments := ((hscan (blanks ++ name)).append (scans_plain (fun c hc => (hblanks c hc).1)
    name)).append (scans_segments flSqlSkip name)
  have hflat := (hscan []).flatten_append
  rw [List.append_nil, List.append_nil] at hflat
  have hwhole : ∀ seg ∈ segments flSqlSkip (front ++ (blanks ++ name)), seg ≠ [ch ';'] := by
    rw [hsegments.segments_eq]
    intro seg hseg heq
    rw [heq, List.mem_append, List.mem_append] at hseg
    rcases hseg with (hseg | hseg) | hseg
    · rw [← hflat, List.mem_flatten] at hsemi
      exact hsemi ⟨_, hseg, List.mem_singleton_self _⟩
    · obtain ⟨c, hc, hone⟩ := List.mem_map.1 hseg
      exact (hblanks c hc).2 (List.cons.inj hone).1
    · exact (hname _ hseg).1 rfl
  obtain ⟨e, more, heq, he, hmore⟩ := packTexts_append_tail _ ends le_rfl hwhole
  have htail : ∀ c ∈ e, isTail c = true := fun c hc => hends c (he hc)
  rw [List.append_assoc] at heq
  refine ⟨_, more, heq, fun words' hwords' => ?_, fun words' hwords' text htext => ?_⟩
  · rw [List.append_assoc front]
    by_cases hsame : words' = words
    · unfold usedName
      rw [hsame, hfront, hfront, Option.bind_some, Option.bind_some]
      apply trackedName_congr
      rw [nameText_append htail, nameText_append hends]
    · unfold usedName
      rw [behind_of_ne hwords hwords' hsame (hfront _), behind_of_ne hwords hwords' hsame (hfront _)]
  · exact usedName_of_tail hwords' fun c hc => hends c (hmore text htext hc)

/-! ## The statements of a request -/

/-- The statements of a request that are not just white space and comments. -/
def requests (sql : Bytes) : List Bytes := (packTexts sql).filter (opening · ≠ [])

theorem wordsFrom_isLead {limit : ℕ} {lead : Bytes} (hlead : ∀ c ∈ lead, isLead c = true) (s : Bytes) :
    wordsFrom limit (lead ++ s) = wordsFrom limit s := by
  induction lead with
  | nil => rfl
  | cons c lead ih =>
    obtain ⟨hc, hrest⟩ := List.forall_mem_cons.1 hlead
    exact (wordsFrom_blank (isLead_facts hc).2.2).trans (ih hrest)

/-- A text of white space and comments gives no name. -/
theorem usedName_of_opening {words text : Bytes} (hwords : words ∈ trackWords)
    (hopening : opening text = []) : usedName words text = none := by
  have hnil : ∀ limit, wordsFrom limit text = [] := by
    cases opens text with
    | empty _ hnone => exact hnone
    | «at» c rest hat =>
      rw [hat, segments_of_ne_nil flSqlSkip (List.cons_ne_nil c rest)] at hopening
      cases hopening
  refine usedName_of_behind fun rest hbehind => ?_
  obtain ⟨c, tail, hdrop, hupper⟩ := exists_letter hwords hbehind
  have hname := (isLetter_facts hupper).2.1
  have hword := @wordsFrom_isLead 1 (text.takeWhile isLead) (fun _ => List.mem_takeWhile_imp)
    (text.dropWhile isLead)
  rw [List.takeWhile_append_dropWhile, hnil, hdrop, wordsFrom_name hname] at hword
  cases hword

theorem lastUsed_requests {words : Bytes} (hwords : words ∈ trackWords) (sql : Bytes) :
    lastUsed words (requests sql) = lastUsed words (packTexts sql) := by
  unfold requests
  induction packTexts sql with
  | nil => rfl
  | cons text texts ih =>
    rw [List.filter_cons, lastUsed_cons]
    split
    · rw [lastUsed_cons, ih]
    · next hlayout =>
      have hopening : opening text = [] := by simpa using hlayout
      rw [ih, usedName_of_opening hwords hopening, Option.or_none]

/-! ## A request against its statements -/

/-- After the request the tracked names are those that its statements leave if each is executed as a
request of its own, and what is taken for a name is part of one statement, without a comment. -/
structure TracksPack (sql : Bytes) (answered left : Dbc) : Prop where
  same : ∀ d, ExecutedEach (requests sql) answered d → SameContext left d
  oneName : ∀ words ∈ trackWords, ∀ rest, behind words sql = some rest → OneName (nameText rest)

/-- The request is a USE, and what follows its words, up to the semicolons and the white space at the
end, is one statement without a comment; or it is none, and the names that its statements give last
are the current ones. -/
inductive Trackable (sql : Bytes) (dbc : Dbc) : Prop where
  | first {words rest : Bytes} (hwords : words ∈ trackWords) (hrest : behind words sql = some rest)
      (hname : OneName (nameText rest))
  | later (hnone : ∀ words ∈ trackWords, behind words sql = none)
      (hdatabase : ∀ name, lastUsed databaseWords (requests sql) = some name →
        dbc.database = some name)
      (hschema : ∀ name, lastUsed schemaWords (requests sql) = some name → dbc.schema = some name)

section

variable {sql : Bytes} {dbc : Dbc}

theorem or_eq_self_iff {a b : Option Bytes} : b = a.or b ↔ ∀ name, a = some name → b = some name := by
  cases a with
  | none => simp
  | some x => simp

theorem trackContext_of_none (hnone : ∀ words ∈ trackWords, behind words sql = none) :
    trackContext dbc sql = dbc := by
  rw [trackContext_usedName, usedName, usedName, hnone _ (List.mem_cons_self ..),
    hnone _ (List.mem_cons_of_mem _ (List.mem_cons_self ..))]
  rfl

theorem TracksPack.trackable (h : TracksPack sql dbc (trackContext dbc sql)) : Trackable sql dbc := by
  by_cases hnone : ∀ words ∈ trackWords, behind words sql = none
  · obtain ⟨d, hd⟩ := exists_executedEach (requests sql) dbc
    obtain ⟨hdatabase, hschema⟩ := h.same d hd
    obtain ⟨hd₁, hd₂⟩ := hd.context
    have hkeeps : trackContext dbc sql = dbc := trackContext_of_none hnone
    rw [hkeeps] at hdatabase hschema
    exact .later hnone (or_eq_self_iff.1 (hdatabase.trans hd₁)) (or_eq_self_iff.1 (hschema.trans hd₂))
  · simp only [not_forall] at hnone
    obtain ⟨words, hwords, hne⟩ := hnone
    obtain ⟨rest, hrest⟩ := Option.ne_none_iff_exists'.1 hne
    exact .first hwords hrest (h.oneName words hwords rest hrest)

theorem lastUsed_of_oneName {words rest : Bytes} (hwords : words ∈ trackWords)
    (hrest : behind words sql = some rest) (hname : OneName (nameText rest)) {words' : Bytes}
    (hwords' : words' ∈ trackWords) : lastUsed words' (requests sql) = usedName words' sql := by
  obtain ⟨first, more, heq, hfirst, hmore⟩ := packTexts_of_oneName hwords hrest hname
  have hnil : more.filterMap (usedName words') = [] :=
    List.filterMap_eq_nil_iff.2 (hmore words' hwords')
  rw [lastUsed_requests hwords', heq, lastUsed_cons, hfirst words' hwords', lastUsed, hnil]
  rfl

theorem Trackable.tracksPack (h : Trackable sql dbc) : TracksPack sql dbc (trackContext dbc sql) := by
  cases h with
  | @first words rest hwords hrest hname =>
    refine ⟨fun d hd => ?_, fun words' hwords' rest' hrest' => ?_⟩
    · obtain ⟨hdatabase, hschema⟩ := hd.context
      rw [lastUsed_of_oneName hwords hrest hname (by decide)] at hdatabase hschema
      rw [trackContext_usedName]
      exact ⟨hdatabase.symm, hschema.symm⟩
    · by_cases hsame : words' = words
      · rw [hsame, hrest] at hrest'
        rwa [← Option.some.inj hrest']
      · rw [behind_of_ne hwords hwords' hsame hrest] at hrest'
        cases hrest'
  | later hnone hdatabase hschema =>
    refine ⟨fun d hd => ?_, fun words hwords rest hrest => ?_⟩
    · obtain ⟨hd₁, hd₂⟩ := hd.context
      rw [trackContext_of_none hnone]
      exact ⟨(or_eq_self_iff.2 hdatabase).trans hd₁.symm, (or_eq_self_iff.2 hschema).trans hd₂.symm⟩
    · rw [hnone words hwords] at hrest
      cases hrest

end

/-- After a request that succeeds, the database and the schema that are tracked are those its
statements leave one by one, and the name that was read is one name, exactly for a trackable
request. -/
theorem tracksPack_iff {stmt stmt' : Stmt} {sql : Bytes} {dbc answered left : Dbc} {t : Trace}
    {response : Response}
    (hanswered : Runs (flProtoExecuteCounted dbc sql stmt.multiStatementCount) t
      (.ok response, answered))
    (hruns : Runs (runSql stmt sql dbc) t (.ok (), stmt', left)) :
    TracksPack sql answered left ↔ Trackable sql answered := by
  obtain ⟨response', answered', hexec, rfl⟩ := runSql_ok hruns
  obtain rfl : answered' = answered := (Prod.mk.inj (hexec.unique hanswered)).2
  exact ⟨TracksPack.trackable, Trackable.tracksPack⟩

/-- Where every answer is a success, the request succeeds. -/
theorem exists_tracked (sql : Bytes) (dbc : Dbc) :
    ∃ t response stmt' answered,
      Runs (flProtoExecuteCounted dbc sql freshStmt.multiStatementCount) t (.ok response, answered) ∧
        Runs (runSql freshStmt sql dbc) t (.ok (), stmt', trackContext answered sql) ∧
          SameContext answered dbc := by
  obtain ⟨t, response, answered, hexec, hmessage, hok, -⟩ :=
    runs_execute_ok dbc sql freshStmt.multiStatementCount { tracked := true, recover := true }
  obtain ⟨stmt', hruns⟩ := runs_runSql_ok hexec hmessage
  refine ⟨t, response, stmt', answered, hexec, hruns, context_execute hexec fun e he => ?_⟩
  rw [hok e he]
  exact takesSession_okReply e.1

/-- One USE with a semicolon behind it. -/
theorem tracksPack_demo :
    ∃ t stmt' answered left, Runs (runSql freshStmt (lit "USE DATABASE demo; ") allocDbc) t
      (.ok (), stmt', left) ∧ TracksPack (lit "USE DATABASE demo; ") answered left := by
  obtain ⟨t, response, stmt', answered, hexec, hruns, -⟩ :=
    exists_tracked (lit "USE DATABASE demo; ") allocDbc
  have hrest : behind databaseWords (lit "USE DATABASE demo; ") = some (lit "demo; ") := by decide
  have hname : OneName (nameText (lit "demo; ")) := by
    unfold OneName
    decide
  exact ⟨t, stmt', answered, _, hruns,
    (tracksPack_iff hexec hruns).2 (.first (by decide) hrest hname)⟩

/-- A statement behind a USE becomes part of the name, and a USE behind a statement is not tracked. -/
theorem not_tracksPack_use :
    (∃ t stmt' answered left, Runs (runSql freshStmt (lit "USE DATABASE foo; SELECT 1")
        (connectedTo (lit "DEMO"))) t (.ok (), stmt', left) ∧
      left.database = some (lit "FOO; SELECT 1") ∧
        ¬TracksPack (lit "USE DATABASE foo; SELECT 1") answered left) ∧
    ∃ t stmt' answered left, Runs (runSql freshStmt (lit "SELECT 1; USE DATABASE foo")
        (connectedTo (lit "DEMO"))) t (.ok (), stmt', left) ∧
      left.database = some (lit "DEMO") ∧
        ¬TracksPack (lit "SELECT 1; USE DATABASE foo") answered left := by
  constructor
  · obtain ⟨t, response, stmt', answered, -, hruns, -⟩ :=
      exists_tracked (lit "USE DATABASE foo; SELECT 1") (connectedTo (lit "DEMO"))
    refine ⟨t, stmt', answered, _, hruns, ?_, fun h => ?_⟩
    · rw [trackContext_usedName]
      rfl
    · have hrest : behind databaseWords (lit "USE DATABASE foo; SELECT 1") =
          some (lit "foo; SELECT 1") := by decide
      exact (h.oneName _ (by decide) _ hrest [ch ';'] (by decide)).1 rfl
  · obtain ⟨t, response, stmt', answered, -, hruns, hdatabase, -⟩ :=
      exists_tracked (lit "SELECT 1; USE DATABASE foo") (connectedTo (lit "DEMO"))
    have hnone : ∀ words ∈ trackWords, behind words (lit "SELECT 1; USE DATABASE foo") = none := by
      decide
    have hlast : lastUsed databaseWords (requests (lit "SELECT 1; USE DATABASE foo")) =
        some (lit "FOO") := by decide
    refine ⟨t, stmt', answered, _, hruns, ?_, fun h => ?_⟩
    · rw [trackContext_of_none hnone, hdatabase]
      rfl
    · cases h.trackable with
      | first hwords hrest _ =>
        rw [hnone _ hwords] at hrest
        cases hrest
      | later _ hcurrent _ =>
        have hfoo := hcurrent _ hlast
        rw [hdatabase] at hfoo
        exact absurd hfoo (by decide)

end FrostlakeOdbc
