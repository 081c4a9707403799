import FrostlakeOdbc.Attributes
import FrostlakeOdbc.ConnStringProof
import FrostlakeOdbc.ExecuteProof
import FrostlakeOdbc.ReuseProof

/-!
# The completed connection string

`SQLDriverConnect` hands back a connection string of the place it has connected to. It says so again
where the values are plain and the string fits the buffer it is printed to (`reconnects_iff`).
-/

namespace FrostlakeOdbc

open CString Exchange Client

/-! ## A text of settings that is cut off -/

/-- What stands behind a setting, with the settings that follow. -/
def behindSetting : List (Bytes × Bytes) → Bytes
  | [] => []
  | r :: rs => ch ';' :: (r.1 ++ ch '=' :: (r.2 ++ behindSetting rs))

/-- The settings without the semicolon before the first. -/
def settingsText (rs : List (Bytes × Bytes)) : Bytes := (behindSetting rs).drop 1

theorem head_take {s : Bytes} (hs : ∀ c ∈ s.head?, c = ch ';') (n : ℕ) :
    ∀ c ∈ (s.take n).head?, c = ch ';' := by
  intro c hc
  cases n with
  | zero =>
    rw [List.take_zero] at hc
    cases hc
  | succ n =>
    cases s with
    | nil => cases hc
    | cons d s => exact hs c hc

theorem behindSetting_head (rs : List (Bytes × Bytes)) :
    ∀ c ∈ (behindSetting rs).head?, c = ch ';' := by
  intro c hc
  cases rs with
  | nil => cases hc
  | cons r rs =>
    cases hc
    rfl

/-- A text moved by one byte is not its own continuation, unless it repeats that byte. -/
theorem not_prefix_behind {c d : UInt8} (hne : d ≠ c) {v s : Bytes} (hs : ∀ a ∈ s.head?, a = d) :
    ¬c :: v <+: v ++ s := by
  intro h
  have htake := List.prefix_iff_eq_take.1 h
  rw [List.length_cons, List.take_append, List.take_of_length_le (Nat.le_succ _),
    Nat.add_sub_cancel_left] at htake
  have hcount := congrArg (List.count c) htake
  have hnone : List.count c (s.take 1) = 0 := by
    cases s with
    | nil => rfl
    | cons a s =>
      rw [List.take_succ_cons, List.take_zero, hs a rfl, List.count_cons_of_ne hne]
      rfl
  rw [List.count_cons_self, List.count_append, hnone] at hcount
  omega

/-- A value that is not plain is not read as it is, and neither is one that is cut off. -/
theorem plain_of_valueRead {v s : Bytes} (hs : ∀ c ∈ s.head?, c = ch ';') {m : ℕ}
    (h : valueRead ((v ++ s).take m) = v) : IsPlain v ∧ v.length ≤ m := by
  unfold valueRead at h
  cases v with
  | nil => exact ⟨⟨List.not_mem_nil, by simp⟩, Nat.zero_le _⟩
  | cons c v =>
    cases m with
    | zero => cases h
    | succ m =>
      rw [List.cons_append, List.take_succ_cons, List.head?_cons, List.drop_succ_cons,
        List.drop_zero] at h
      by_cases hopen : c = ch '\x7b'
      · -- what is read begins with the brace, so the rest would have to be braces up to a semicolon
        subst hopen
        rw [if_pos rfl] at h
        have hprefix : ch '\x7b' :: v <+: v ++ s := by
          rw [← h]
          exact (List.takeWhile_prefix _).trans (List.take_prefix _ _)
        exact absurd hprefix (not_prefix_behind (by decide) hs)
      · rw [if_neg (by simpa using hopen)] at h
        have hsemi : ch ';' ∉ c :: v := by
          intro hmem
          rw [← h] at hmem
          exact absurd (List.mem_takeWhile_imp hmem) (by decide)
        have hlength := congrArg List.length h
        have hle := (List.takeWhile_sublist (fun d => decide (d ≠ ch ';'))
          (l := c :: (v ++ s).take m)).length_le
        rw [hlength, List.length_cons, List.length_cons, List.length_take] at hle
        refine ⟨⟨hsemi, by simpa using hopen⟩, ?_⟩
        rw [List.length_cons]
        omega

/-- A setting that is found in a text cut off after `n` bytes is plain and not cut off. -/
theorem plain_of_lookUp {key v s : Bytes} {n : ℕ} (hkey : IsKey key) (hs : ∀ c ∈ s.head?, c = ch ';')
    (h : lookUp ((key ++ ch '=' :: (v ++ s)).take n) key = some v) :
    IsPlain v ∧ key.length + 1 + v.length ≤ n := by
  by_cases hn : n ≤ key.length
  · have hclean : ch '=' ∉ (key ++ ch '=' :: (v ++ s)).take n := by
      rw [List.take_append_of_le_length hn]
      exact fun hmem => hkey.clean (List.mem_of_mem_take hmem)
    rw [lookUp_of_none (nextPair_of_notMem hclean)] at h
    cases h
  · obtain ⟨m, rfl⟩ := Nat.exists_eq_add_of_le (Nat.lt_of_not_le hn)
    have htake : (key ++ ch '=' :: (v ++ s)).take (key.length.succ + m) =
        key ++ ch '=' :: (v ++ s).take m := by
      rw [List.take_append, List.take_of_length_le (by omega),
        show key.length.succ + m - key.length = m + 1 by omega, List.take_succ_cons]
    rw [htake, lookUp_of_some (hkey.nextPair _),
      if_pos (strcaseeq_self key)] at h
    obtain ⟨hplain, hlength⟩ := plain_of_valueRead hs (Option.some.inj h)
    exact ⟨hplain, by omega⟩

/-- Behind a plain setting that is not cut off, the loop goes on with the next. -/
theorem lookUp_setting {key v s : Bytes} (hkey : IsKey key) (hplain : IsPlain v)
    (hs : ∀ c ∈ s.head?, c = ch ';') (other : Bytes) :
    lookUp (key ++ ch '=' :: (v ++ s)) other =
      if strcaseeq key other then some v else lookUp (s.drop 1) other := by
  obtain ⟨hread, hbehind⟩ := hplain.valueRead hs
  rw [lookUp_of_some (hkey.nextPair _), hread, hbehind]

theorem settingsText_cons (r : Bytes × Bytes) (rs : List (Bytes × Bytes)) :
    settingsText (r :: rs) = r.1 ++ ch '=' :: (r.2 ++ behindSetting rs) := rfl

/-- Plain settings are all found. -/
theorem lookUp_settingsText {rs : List (Bytes × Bytes)} (hkeys : ∀ r ∈ rs, IsKey r.1)
    (hplain : ∀ r ∈ rs, IsPlain r.2) (key : Bytes) :
    lookUp (settingsText rs) key = (rs.find? fun r => strcaseeq r.1 key).map Prod.snd := by
  induction rs with
  | nil => rfl
  | cons r rs ih =>
    rw [settingsText_cons, lookUp_setting (hkeys r List.mem_cons_self) (hplain r List.mem_cons_self)
      (behindSetting_head rs), List.find?_cons]
    cases strcaseeq r.1 key with
    | true => rfl
    | false =>
      exact ih (fun q hq => hkeys q (List.mem_cons_of_mem r hq))
        fun q hq => hplain q (List.mem_cons_of_mem r hq)

theorem length_behindSetting (rs : List (Bytes × Bytes)) :
    (behindSetting rs).length ≤ (settingsText rs).length + 1 ∧
      (rs ≠ [] → 0 < (settingsText rs).length) := by
  cases rs with
  | nil => exact ⟨Nat.zero_le _, fun h => absurd rfl h⟩
  | cons r rs =>
    refine ⟨le_rfl, fun _ => ?_⟩
    rw [settingsText_cons, List.length_append, List.length_cons]
    omega

/-- Settings that are all found in a text cut off after `n` bytes are plain, and nothing of them is
cut off. -/
theorem plain_of_settingsText {rs : List (Bytes × Bytes)} {n : ℕ} (hkeys : ∀ r ∈ rs, IsKey r.1)
    (hdistinct : (rs.map Prod.fst).Pairwise fun a b => strcaseeq a b = false)
    (h : ∀ r ∈ rs, lookUp ((settingsText rs).take n) r.1 = some r.2) :
    (∀ r ∈ rs, IsPlain r.2) ∧ (settingsText rs).length ≤ n := by
  induction rs generalizing n with
  | nil => exact ⟨fun r hr => absurd hr List.not_mem_nil, Nat.zero_le n⟩
  | cons r rs ih =>
    rw [List.map_cons, List.pairwise_cons] at hdistinct
    have hkey := hkeys r List.mem_cons_self
    obtain ⟨hplain, hn⟩ := plain_of_lookUp hkey (behindSetting_head rs) (h r List.mem_cons_self)
    obtain ⟨m, rfl⟩ := Nat.exists_eq_add_of_le hn
    have htake : (settingsText (r :: rs)).take (r.1.length + 1 + r.2.length + m) =
        r.1 ++ ch '=' :: (r.2 ++ (behindSetting rs).take m) := by
      rw [settingsText_cons, List.take_append, List.take_of_length_le (by omega),
        show r.1.length + 1 + r.2.length + m - r.1.length = r.2.length + m + 1 by omega,
        List.take_succ_cons, List.take_append, List.take_of_length_le (by omega),
        Nat.add_sub_cancel_left]
    have hrest : ∀ q ∈ rs, lookUp ((settingsText rs).take (m - 1)) q.1 = some q.2 := by
      intro q hq
      have hfound := h q (List.mem_cons_of_mem r hq)
      rw [htake, lookUp_setting hkey hplain (head_take (behindSetting_head rs) m),
        hdistinct.1 q.1 (List.mem_map_of_mem hq), if_neg Bool.false_ne_true, List.drop_take] at hfound
      exact hfound
    obtain ⟨hplains, hlength⟩ :=
      ih (fun q hq => hkeys q (List.mem_cons_of_mem r hq)) hdistinct.2 hrest
    refine ⟨List.forall_mem_cons.2 ⟨hplain, hplains⟩, ?_⟩
    obtain ⟨hbehind, hpos⟩ := length_behindSetting rs
    have hwhole : (settingsText (r :: rs)).length =
        r.1.length + 1 + r.2.length + (behindSetting rs).length := by
      rw [settingsText_cons]
      simp only [List.length_append, List.length_cons]
      omega
    by_cases hnil : rs = []
    · subst hnil
      rw [hwhole]
      exact Nat.add_le_add_left (Nat.zero_le m) _
    · have := hpos hnil
      omega

/-! ## The place of a connection -/

/-- The monitor of all exchanges. -/
def anyExchange : Monitor Request HttpReply Unit where
  next _ _ _ := ()
  allows _ _ := True
  admits _ _ _ := True

theorem admits_anyExchange (t : Trace) : anyExchange.Admits () t := by
  induction t with
  | nil => trivial
  | cons e t ih => exact ⟨trivial, ih⟩

/-- No exchange changes the settings of a connection. -/
theorem postsKeep_settings (opened : Dbc) :
    PostsKeep anyExchange fun d _ => d.settings = opened.settings where
  allows _ := trivial
  lost h _ _ := (settings_forgetSession _).trans h
  failed h _ _ _ := h
  absorbed h _ _ := (settings_absorbed _ _).trans h
  noted sql h := (settings_flSessionNote _ sql).trans h
  settled h := h

theorem settings_doConnect {database schema : Option Bytes} {dbc d : Dbc} {t : Trace}
    (hruns : Runs (doConnect database schema dbc) t (.ok (), d)) :
    d.settings = (openDbc database schema
      { dbc with host := some (dbc.host.getD (lit "localhost")) }).settings := by
  generalize hopened : openDbc database schema
    { dbc with host := some (dbc.host.getD (lit "localhost")) } = opened
  have hkeep := postsKeep_settings opened
  have hsteps : ConnectSteps anyExchange database schema fun _ d _ => d.settings = opened.settings :=
    { useDatabase := fun d g hd _ => (hkeep.holds_execute hd _ _ _).mono fun a _ ha _ => ha
      noDatabase := fun d g hd _ => hd
      useSchema := fun d g hd _ => (hkeep.holds_execute hd _ _ _).mono fun a _ ha _ => ha
      noSchema := fun d g hd _ => hd
      turnOff := fun d g hd _ => (hkeep.holds_execute hd _ _ _).mono fun a _ ha _ => ha
      leaveOn := fun d g hd _ => hd }
  have hholds := holds_doConnect (fun _ _ _ => trivial) hsteps dbc ()
    fun _ _ _ _ => congrArg Dbc.settings hopened
  exact (hholds.runs hruns (admits_anyExchange t)).2 rfl

/-- A connection opened on the names: where it goes, and the scope its sessions are put on. -/
structure OpenedAt (names : Named) (dbc d : Dbc) : Prop where
  host : d.host = some (names.server.getD (lit "localhost"))
  port : d.port = (names.port.bind parsePort).getD dbc.port
  database : d.scopeDatabase = if hasName names.database then names.database else none
  schema : d.scopeSchema = if hasName names.schema then names.schema else none

/-- A connect that succeeds ends at the place that was named, and with the string that says so. -/
theorem openedAt_of_runs {ini : IniFile} {conn : Bytes} {length : ℤ} {dbc d : Dbc} {t : Trace}
    {out : Bytes} (hruns : Runs (sqlDriverConnect ini conn length dbc) t (.ok out, d)) :
    OpenedAt (driverConnectNames ini (copyText 2048 conn length)) dbc d ∧
      out = outConnectionString (driverConnectNames ini (copyText 2048 conn length)) d := by
  generalize hnames : driverConnectNames ini (copyText 2048 conn length) = names
  cases hclosed : dbc.connected with
  | true =>
    unfold sqlDriverConnect at hruns
    rw [if_pos hclosed] at hruns
    cases (runs_pure_iff.1 hruns).2
  | false =>
    by_cases hrefused : ∃ port, names.port = some port ∧ parsePort port = none
    · obtain ⟨port, hport, hparse⟩ := hrefused
      rw [sqlDriverConnect_of_not_parsed hclosed hnames hport hparse] at hruns
      cases (runs_pure_iff.1 hruns).2
    · have hport : ∀ port, names.port = some port → (parsePort port).isSome = true := fun port hp =>
        Option.isSome_iff_ne_none.2 fun hnone => hrefused ⟨port, hp, hnone⟩
      rw [sqlDriverConnect_of_parsed hclosed hnames hport, runs_bind_iff] at hruns
      obtain ⟨t₁, t₂, ⟨outcome, d'⟩, rfl, hconnect, hend⟩ := hruns
      obtain ⟨rfl, heq⟩ := runs_pure_iff.1 hend
      cases outcome with
      | error diag => cases heq
      | ok u =>
        cases heq
        have hset := settings_doConnect hconnect
        refine ⟨⟨?_, ?_, ?_, ?_⟩, rfl⟩
        · exact (congrArg Dbc.host hset :)
        · exact (congrArg Dbc.port hset :)
        · exact (congrArg Dbc.scopeDatabase hset :)
        · exact (congrArg Dbc.scopeSchema hset :)

/-! ## The string of a connection -/

/-- What the names and the port are written as. -/
def connectionSettings (names : Named) (port : ℤ) : List (Bytes × Bytes) :=
  [(lit "Server", names.server.getD (lit "localhost")), (lit "Port", intText port)] ++
    (names.database.map fun name => (lit "Database", name)).toList ++
    (names.schema.map fun name => (lit "Schema", name)).toList

def driverSetting : Bytes := lit "Driver=\x7bFrostlake ODBC Driver\x7d"

/-- The connection string as it is before it is printed to its buffer. -/
def wholeConnectionString (names : Named) (port : ℤ) : Bytes :=
  driverSetting ++ behindSetting (connectionSettings names port)

theorem outConnectionString_eq {names : Named} {dbc d : Dbc} (h : OpenedAt names dbc d) :
    outConnectionString names d = (wholeConnectionString names d.port).take 2047 := by
  have hserver : lit "Driver=\x7bFrostlake ODBC Driver\x7d;Server=" =
    driverSetting ++ ch ';' :: (lit "Server" ++ [ch '=']) := by decide
  have hport : lit ";Port=" = ch ';' :: (lit "Port" ++ [ch '=']) := by decide
  have hdatabase : lit ";Database=" = ch ';' :: (lit "Database" ++ [ch '=']) := by decide
  have hschema : lit ";Schema=" = ch ';' :: (lit "Schema" ++ [ch '=']) := by decide
  unfold outConnectionString snprintf wholeConnectionString connectionSettings
  refine congrArg (List.take 2047) ?_
  rw [h.host, hserver, hport]
  cases names.database <;> cases names.schema <;> simp [behindSetting, hdatabase, hschema]

/-- The text goes on behind the name of the driver. -/
theorem lookUp_driver {s : Bytes} (hs : ∀ c ∈ s.head?, c = ch ';') {key : Bytes}
    (hkey : strcaseeq (lit "Driver") key = false) :
    lookUp (driverSetting ++ s) key = lookUp (s.drop 1) key := by
  have hsplit : driverSetting ++ s = lit "Driver" ++ ch '=' ::
    (ch '\x7b' :: (lit "Frostlake ODBC Driver" ++ ch '\x7d' :: s)) := rfl
  have hbehind : behindValue (ch '\x7b' :: (lit "Frostlake ODBC Driver" ++ ch '\x7d' :: s)) =
      s.drop 1 := by
    have hclose := (takeWhile_append_stop (p := (· ≠ ch '\x7d')) (a := lit "Frostlake ODBC Driver")
      (s := ch '\x7d' :: s) (forall_mem_of_all (by decide)) (by rintro c ⟨⟩; decide)).2
    unfold behindValue
    rw [List.head?_cons, if_pos rfl, List.drop_succ_cons, List.drop_zero, hclose,
      dropWhile_ne_cons (by decide), dropWhile_behind hs]
  have hdriver : IsKey (lit "Driver") := ⟨by decide, by rintro c ⟨⟩; decide, by decide⟩
  rw [hsplit, lookUp_of_some (hdriver.nextPair _), hkey, if_neg Bool.false_ne_true, hbehind]

/-- What a connection string is to say of a place: where it is and what is named there, and nothing
that is not. -/
structure SaysPlace (text : Bytes) (host : Option Bytes) (port : ℤ) (names : Named) : Prop where
  server : connStrGet text "Server" = host
  port : connStrGet text "Port" = some (intText port)
  database : connStrGet text "Database" = names.database
  schema : connStrGet text "Schema" = names.schema

/-- The names stand in a connection string as they are, and the string fits the buffer it is printed
to. -/
structure PlainNames (names : Named) (port : ℤ) : Prop where
  server : ∀ name, names.server = some name → IsPlain name
  database : ∀ name, names.database = some name → IsPlain name
  schema : ∀ name, names.schema = some name → IsPlain name
  fits : (wholeConnectionString names port).length < 2048

theorem isPlain_intText (n : ℤ) : IsPlain (intText n) := by
  have hdigit (c : UInt8) (hc : isDigit c = false) : c ∉ natText n.natAbs := fun h => by
    rw [isDigit_of_mem_natText h] at hc
    cases hc
  have hsemi := hdigit (ch ';') (by decide)
  have hopen : (natText n.natAbs).head? ≠ some (ch '\x7b') := fun h =>
    hdigit _ (by decide) (List.mem_of_mem_head? h)
  unfold intText
  split
  · exact ⟨by rw [List.mem_cons, not_or]; exact ⟨by decide, hsemi⟩, by rw [List.head?_cons]; decide⟩
  · exact ⟨hsemi, hopen⟩

theorem isPlain_settings (names : Named) (port : ℤ) :
    (∀ r ∈ connectionSettings names port, IsPlain r.2) ↔
      (∀ name, names.server = some name → IsPlain name) ∧
      (∀ name, names.database = some name → IsPlain name) ∧
      ∀ name, names.schema = some name → IsPlain name := by
  have hserver : IsPlain (names.server.getD (lit "localhost")) ↔
      ∀ name, names.server = some name → IsPlain name := by
    cases names.server with
    | none => exact iff_of_true ⟨by decide, by decide⟩ (fun name h => by cases h)
    | some name => simp
  unfold connectionSettings
  simp only [List.cons_append, List.nil_append, List.forall_mem_cons, List.forall_mem_append,
    hserver, isPlain_intText, true_and]
  cases names.database <;> cases names.schema <;> simp

theorem keys_connectionSettings (names : Named) (port : ℤ) :
    ((connectionSettings names port).map Prod.fst).Sublist
      [lit "Server", lit "Port", lit "Database", lit "Schema"] := by
  unfold connectionSettings
  cases names.database <;> cases names.schema <;>
    simp only [Option.map_none, Option.map_some, Option.toList_none, Option.toList_some,
      List.map_append, List.map_cons, List.map_nil] <;> decide

theorem saysPlace_iff (names : Named) (port : ℤ) :
    SaysPlace ((wholeConnectionString names port).take 2047)
      (some (names.server.getD (lit "localhost"))) port names ↔ PlainNames names port := by
  generalize hrs : connectionSettings names port = rs
  have hkeys : ∀ r ∈ rs, IsKey r.1 ∧ strcaseeq (lit "Driver") r.1 = false := by
    intro r hr
    have hmem := (keys_connectionSettings names port).subset (hrs ▸ List.mem_map_of_mem hr)
    simp only [List.mem_cons, List.not_mem_nil, or_false] at hmem
    obtain h | h | h | h := hmem <;> rw [h] <;>
      exact ⟨⟨by decide, by rintro c ⟨⟩; decide, by decide⟩, by decide⟩
  have hdistinct : (rs.map Prod.fst).Pairwise fun a b => strcaseeq a b = false := by
    rw [← hrs]
    exact List.Pairwise.sublist (keys_connectionSettings names port) (by decide)
  have hdriver : driverSetting.length = 30 := by decide
  have hlength : (wholeConnectionString names port).length < 2048 ↔
      (settingsText rs).length ≤ 2016 := by
    have hne : rs ≠ [] := hrs ▸ List.cons_ne_nil _ _
    have hpos := (length_behindSetting rs).2 hne
    rw [wholeConnectionString, hrs, List.length_append, hdriver]
    unfold settingsText at hpos ⊢
    rw [List.length_drop] at hpos ⊢
    omega
  have hget (key : String) (hkey : strcaseeq (lit "Driver") (lit key) = false) :
      connStrGet ((wholeConnectionString names port).take 2047) key =
        lookUp ((settingsText rs).take 2016) (lit key) := by
    have hcut : (wholeConnectionString names port).take 2047 =
        driverSetting ++ (behindSetting rs).take 2017 := by
      rw [wholeConnectionString, hrs, List.take_append, hdriver,
        List.take_of_length_le (hdriver.trans_le (by decide))]
    rw [connStrGet, connStrGetFrom_eq_lookUp, hcut]
    have hbehind := lookUp_driver (head_take (behindSetting_head rs) 2017) hkey
    rwa [List.drop_take] at hbehind
  have hplain := isPlain_settings names port
  rw [hrs] at hplain
  constructor
  · rintro ⟨hserver, hport, hdatabase, hschema⟩
    rw [hget _ (by decide)] at hserver hport hdatabase hschema
    have hfound : ∀ r ∈ rs, lookUp ((settingsText rs).take 2016) r.1 = some r.2 := by
      intro r hr
      rw [← hrs, connectionSettings] at hr
      simp only [List.cons_append, List.nil_append, List.mem_cons, List.mem_append,
        Option.mem_toList, Option.map_eq_some_iff] at hr
      obtain rfl | rfl | ⟨name, hname, rfl⟩ | ⟨name, hname, rfl⟩ := hr
      · exact hserver
      · exact hport
      · exact hdatabase.trans hname
      · exact hschema.trans hname
    obtain ⟨hplains, hfits⟩ := plain_of_settingsText (fun r hr => (hkeys r hr).1) hdistinct hfound
    obtain ⟨hserver, hdatabase, hschema⟩ := hplain.1 hplains
    exact ⟨hserver, hdatabase, hschema, hlength.2 hfits⟩
  · rintro ⟨hserver, hdatabase, hschema, hfits⟩
    have hall := lookUp_settingsText (fun r hr => (hkeys r hr).1)
      (hplain.2 ⟨hserver, hdatabase, hschema⟩)
    rw [List.take_of_length_le (hlength.1 hfits)] at hget
    refine ⟨?_, ?_, ?_, ?_⟩ <;> rw [hget _ (by decide), hall, ← hrs] <;> unfold connectionSettings
    · rfl
    · rfl
    · cases names.database <;> cases names.schema <;> rfl
    · cases names.database <;> cases names.schema <;> rfl

/-! ## Reconnecting -/

theorem zero_notMem_driverConnectName {ini : IniFile} {conn name : Bytes} (h : 0 ∉ conn) {key : String}
    (hname : ((connStrGet conn key).or
      ((connStrGet conn "DSN").bind fun dsn => dsnGet ini dsn key)) = some name) : 0 ∉ name := by
  cases hconn : connStrGet conn key with
  | some value =>
    rw [hconn] at hname
    cases hname
    exact fun hzero => h (connStrGet_subset hconn hzero)
  | none =>
    rw [hconn, Option.none_or, Option.bind_eq_some_iff] at hname
    obtain ⟨dsn, -, hini⟩ := hname
    unfold dsnGet at hini
    dsimp only at hini
    split at hini
    · cases hini
    · cases hini
      exact fun hzero => zero_notMem_cstr _ (List.mem_of_mem_take hzero)

theorem mem_behindSetting {c : UInt8} (hsemi : c ≠ ch ';') (hequals : c ≠ ch '=')
    {rs : List (Bytes × Bytes)} (h : c ∈ behindSetting rs) : ∃ r ∈ rs, c ∈ r.1 ∨ c ∈ r.2 := by
  induction rs with
  | nil => cases h
  | cons r rs ih =>
    rw [behindSetting, List.mem_cons, or_iff_right hsemi, List.mem_append, List.mem_cons,
      or_iff_right hequals, List.mem_append] at h
    obtain h | h | h := h
    · exact ⟨r, List.mem_cons_self, .inl h⟩
    · exact ⟨r, List.mem_cons_self, .inr h⟩
    · obtain ⟨q, hq, hmem⟩ := ih h
      exact ⟨q, List.mem_cons_of_mem r hq, hmem⟩

theorem zero_notMem_wholeConnectionString {ini : IniFile} {conn : Bytes} (h : 0 ∉ conn) (port : ℤ) :
    0 ∉ wholeConnectionString (driverConnectNames ini conn) port := by
  intro hzero
  rw [wholeConnectionString, List.mem_append, or_iff_right (by decide)] at hzero
  obtain ⟨r, hr, hkey | hvalue⟩ := mem_behindSetting (by decide) (by decide) hzero
  · have hmem := (keys_connectionSettings _ port).subset (List.mem_map_of_mem hr)
    simp only [List.mem_cons, List.not_mem_nil, or_false] at hmem
    obtain hr | hr | hr | hr := hmem <;> rw [hr] at hkey <;> revert hkey <;> decide
  · simp only [connectionSettings, List.cons_append, List.nil_append, List.mem_cons, List.mem_append,
      Option.mem_toList, Option.map_eq_some_iff] at hr
    obtain rfl | rfl | ⟨name, hname, rfl⟩ | ⟨name, hname, rfl⟩ := hr
    · cases hserver : (driverConnectNames ini conn).server with
      | none =>
        rw [hserver] at hvalue
        revert hvalue
        decide
      | some name =>
        rw [hserver] at hvalue
        exact zero_notMem_driverConnectName h hserver hvalue
    · exact zero_notMem_intText port hvalue
    · exact zero_notMem_driverConnectName h hname hvalue
    · exact zero_notMem_driverConnectName h hname hvalue

/-- When a connect hands back a connection string that says where it has connected to: the names are
plain, and the string is not cut off. -/
theorem reconnects_iff {ini : IniFile} {conn : Bytes} {length : ℤ} {dbc d : Dbc} {t : Trace}
    {out : Bytes} (hruns : Runs (sqlDriverConnect ini conn length dbc) t (.ok out, d))
    {bufferLength : Int16} (hroom : out.length < bufferLength.toInt) (stringLength2Ptr : Bool) :
    let names := driverConnectNames ini (copyText 2048 conn length)
    let handed := driverConnectOut out true bufferLength stringLength2Ptr
    handed.ret = .success ∧ SaysPlace (cstr handed.written) d.host d.port names ↔
      PlainNames names ((names.port.bind parsePort).getD dbc.port) := by
  intro names handed
  obtain ⟨hopened, hout⟩ := openedAt_of_runs hruns
  rw [outConnectionString_eq hopened] at hout
  have hnul : 0 ∉ out := by
    rw [hout]
    exact fun h => zero_notMem_wholeConnectionString (zero_notMem_cstr _) d.port
      (List.mem_of_mem_take h)
  have hwritten : handed.written = out ++ [0] := by
    show (flCopyString (some out) true bufferLength true).written = out ++ [0]
    unfold flCopyString
    dsimp only
    rw [if_neg (by simp; omega), if_pos (by rw [Option.getD_some]; omega)]
    rfl
  have hret : handed.ret = .success := rfl
  rw [and_iff_right hret, hwritten, cstr_append_zero hnul, hout, hopened.host, saysPlace_iff, hopened.port]

/-- A connect over a new handle to a server that accepts everything. -/
theorem runs_driverConnect (conn : Bytes) :
    ∃ t, Runs (sqlDriverConnect (fun _ _ => []) conn sqlNts allocDbc) t
      ((sqlDriverConnect (fun _ _ => []) conn sqlNts allocDbc).serve answersOk ()).1 :=
  runs_serve answersOk _ ()

theorem reconnects_iff_sales :
    ∃ t out d, Runs (sqlDriverConnect (fun _ _ => []) (lit "Server=db;Database=SALES") sqlNts allocDbc)
        t (.ok out, d) ∧
      (let names := driverConnectNames (fun _ _ => [])
        (copyText 2048 (lit "Server=db;Database=SALES") sqlNts)
      let handed := driverConnectOut out true 1024 true
      handed.ret = .success ∧ SaysPlace (cstr handed.written) d.host d.port names ↔
        PlainNames names ((names.port.bind parsePort).getD allocDbc.port)) := by
  obtain ⟨t, hrun⟩ := runs_driverConnect (lit "Server=db;Database=SALES")
  refine ⟨t, _, _, hrun, reconnects_iff hrun ?_ true⟩
  decide

/-- A database whose name holds a semicolon is handed back as a database and a schema. -/
theorem not_reconnects_semicolon :
    ∃ t out d, Runs (sqlDriverConnect (fun _ _ => []) (lit "Database=\x7ba;Schema=b\x7d") sqlNts
        allocDbc) t (.ok out, d) ∧
      (let names := driverConnectNames (fun _ _ => [])
        (copyText 2048 (lit "Database=\x7ba;Schema=b\x7d") sqlNts)
      let handed := driverConnectOut out true 1024 true
      out.length < (1024 : Int16).toInt ∧
        ¬(handed.ret = .success ∧ SaysPlace (cstr handed.written) d.host d.port names)) := by
  obtain ⟨t, hrun⟩ := runs_driverConnect (lit "Database=\x7ba;Schema=b\x7d")
  refine ⟨t, _, _, hrun, by decide, fun h => ?_⟩
  have hschema := h.2.schema
  revert hschema
  decide

end FrostlakeOdbc
