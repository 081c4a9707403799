import FrostlakeOdbc.Catalog
import FrostlakeOdbc.IdentProof
import FrostlakeOdbc.StatementProof

/-!
# Catalog queries keep their arguments to themselves

The query of `SQLTables` and of `SQLColumns` is its template with one identifier for the catalog and
one string for each pattern (`isListing_listingSql`), whatever the arguments are.
-/

namespace FrostlakeOdbc

open CString Exchange Client Scan

/-! ## What the segments of a query are -/

/-- A segment that is an identifier. -/
def IsIdentifier (s : Bytes) : Prop := identIsBare s = true ∨ identIsQuoted s = true

/-- The segments in front of the name of the information schema. -/
def Qualifies (catalog : Option Bytes) (l : List Bytes) : Prop :=
  if namesCatalog catalog then ∃ name, IsIdentifier name ∧ l = [name, lit "."] else l = []

/-- The segments of a restriction: those of the template, and one string that says the pattern. -/
def Restricts (identifier : String) (pattern : Option Bytes) (l : List Bytes) : Prop :=
  if isEmptyOrAll pattern then l = []
  else ∃ literal, unescapeString literal = pattern ∧
    l = segments flSqlSkip (lit " AND " ++ lit identifier ++ lit " LIKE ") ++ [literal]

/-- The query is cut into the segments of its template, with those of the arguments in their
places. -/
def IsListing (front view tail : String) (catalog : Option Bytes)
    (args : List (String × Option Bytes)) (sql : Bytes) : Prop :=
  ∃ qualifier restrictions, Qualifies catalog qualifier ∧
    List.Forall₂ (fun arg l => Restricts arg.1 arg.2 l) args restrictions ∧
    segments flSqlSkip sql = segments flSqlSkip (lit front) ++ qualifier ++
      segments flSqlSkip (lit "information_schema." ++ lit view ++ lit " WHERE 1=1") ++
      restrictions.flatten ++ segments flSqlSkip (lit tail)

/-! ## The parts of a query -/

theorem isIdentifier_ident (name : Bytes) : IsIdentifier (ident name) := by
  obtain ⟨heq, hbare⟩ | ⟨body, heq, hpaired, -⟩ := ident_cases name
  · rw [heq]
    exact .inl hbare
  · rw [heq]
    exact .inr (identIsQuoted_iff.2 ⟨body, rfl, hpaired⟩)

/-- The identifier and the period in front of the information schema. -/
def qualifier (catalog : Option Bytes) : List Bytes :=
  if namesCatalog catalog then [ident (catalog.getD []), lit "."] else []

theorem qualifies_qualifier (catalog : Option Bytes) : Qualifies catalog (qualifier catalog) := by
  unfold Qualifies qualifier
  split
  · exact ⟨_, isIdentifier_ident _, rfl⟩
  · rfl

/-- The catalog in front of the information schema is the identifier and a period. -/
theorem scans_catalog (catalog : Option Bytes) {t : Bytes} :
    Scans flSqlSkip (appendCatalog [] catalog ++ t) (qualifier catalog) t := by
  have hperiod : Scans flSqlSkip (lit "." ++ t) [lit "."] t :=
    .one (by decide) (width_of_none (flSqlSkip_plain (by decide) t))
  unfold appendCatalog qualifier
  split
  · rw [List.append_assoc]
    refine (scans_ident _ fun d hd => ?_).append hperiod
    cases hd
    decide
  · exact .done t

theorem appendLike_eq (identifier : String) (pattern : Bytes) :
    appendLike identifier pattern =
      lit " AND " ++ lit identifier ++ lit " LIKE" ++ [ch ' '] ++ appendStringLiteral pattern := by
  have hescape : (fun c => if c = ch '\'' || c = ch '\\' then [c, c] else [c]) = escapeStringByte := by
    funext c
    unfold escapeStringByte
    by_cases hquote : c = ch '\''
    · rw [if_pos hquote, if_pos (by rw [hquote]; rfl), hquote]
    · by_cases hback : c = ch '\\'
      · rw [if_neg hquote, if_pos hback, if_pos (by rw [hback]; rfl), hback]
      · rw [if_neg hquote, if_neg hback, decide_eq_false hquote, decide_eq_false hback]
        rfl
  have hlike : lit " LIKE '" = lit " LIKE" ++ [ch ' '] ++ lit "'" := by decide
  unfold appendLike appendStringLiteral
  rw [hescape, hlike]
  simp only [List.append_assoc]

/-- A restriction is what its template is, and one string. -/
theorem scans_restriction {identifier : String}
    (hbland : bland (lit " AND " ++ lit identifier ++ lit " LIKE") = true) (pattern : Option Bytes)
    {t : Bytes} (ht : ∀ d ∈ t.head?, d ≠ ch '\'') :
    ∃ l, Restricts identifier pattern l ∧
      Scans flSqlSkip (appendRestriction [] identifier pattern ++ t) l t := by
  by_cases hall : isEmptyOrAll pattern = true
  · refine ⟨[], ?_, ?_⟩
    · unfold Restricts
      rw [if_pos hall]
    · unfold appendRestriction
      rw [if_pos hall]
      exact .done t
  · obtain ⟨text, rfl⟩ : ∃ text, pattern = some text := by
      cases pattern with
      | none => exact absurd rfl hall
      | some text => exact ⟨text, rfl⟩
    have htemplate : lit " AND " ++ lit identifier ++ lit " LIKE " =
        lit " AND " ++ lit identifier ++ lit " LIKE" ++ [ch ' '] := by
      rw [List.append_assoc _ (lit " LIKE")]
      rfl
    refine ⟨segments flSqlSkip (lit " AND " ++ lit identifier ++ lit " LIKE ") ++
      [appendStringLiteral text], ?_, ?_⟩
    · unfold Restricts
      rw [if_neg hall]
      exact ⟨_, unescapeString_appendStringLiteral text, rfl⟩
    · unfold appendRestriction
      rw [if_neg hall, Option.getD_some, appendLike_eq, List.nil_append, htemplate,
        List.append_assoc _ _ t]
      apply (scans_bland_blank hbland _).append
      exact .one (List.cons_ne_nil _ _) (width_appendStringLiteral ht text)

/-! ## A whole query -/

theorem appendCatalog_eq (buf : Bytes) (catalog : Option Bytes) :
    appendCatalog buf catalog = buf ++ appendCatalog [] catalog := by
  unfold appendCatalog
  split
  · rw [List.append_assoc]
    rfl
  · exact (List.append_nil buf).symm

theorem appendRestriction_eq (buf : Bytes) (identifier : String) (pattern : Option Bytes) :
    appendRestriction buf identifier pattern = buf ++ appendRestriction [] identifier pattern := by
  unfold appendRestriction
  split
  · exact (List.append_nil buf).symm
  · rfl

/-- Restrictions start with a blank, like what follows them. -/
theorem head?_restrictions (args : List (String × Option Bytes)) {t : Bytes}
    (ht : ∀ d ∈ t.head?, d = ch ' ') :
    ∀ d ∈ ((args.flatMap fun arg => appendRestriction [] arg.1 arg.2) ++ t).head?, d = ch ' ' := by
  induction args with
  | nil => exact ht
  | cons arg args ih =>
    rw [List.flatMap_cons, List.append_assoc]
    unfold appendRestriction at ih ⊢
    split
    · exact ih
    · intro d hd
      cases hd
      rfl

theorem scans_restrictions {args : List (String × Option Bytes)}
    (hargs : ∀ arg ∈ args, bland (lit " AND " ++ lit arg.1 ++ lit " LIKE") = true) {t : Bytes}
    (ht : ∀ d ∈ t.head?, d = ch ' ') :
    ∃ ls, List.Forall₂ (fun arg l => Restricts arg.1 arg.2 l) args ls ∧
      Scans flSqlSkip ((args.flatMap fun arg => appendRestriction [] arg.1 arg.2) ++ t)
        ls.flatten t := by
  induction args with
  | nil => exact ⟨[], .nil, .done t⟩
  | cons arg args ih =>
    obtain ⟨ls, hls, hscan⟩ := ih fun arg harg => hargs arg (List.mem_cons_of_mem _ harg)
    have hnext : ∀ d ∈ ((args.flatMap fun arg => appendRestriction [] arg.1 arg.2) ++ t).head?,
        d ≠ ch '\'' := by
      intro d hd
      rw [head?_restrictions args ht d hd]
      decide
    obtain ⟨l, hl, hfirst⟩ :=
      scans_restriction (hargs arg (List.mem_cons_self ..)) arg.2 hnext
    refine ⟨l :: ls, .cons hl hls, ?_⟩
    rw [List.flatMap_cons, List.append_assoc, List.flatten_cons]
    exact hfirst.append hscan

/-- A query with the parts of a listing. -/
def listingSql (front view tail : String) (catalog : Option Bytes)
    (args : List (String × Option Bytes)) : Bytes :=
  lit front ++ (appendCatalog [] catalog ++
    ((lit "information_schema." ++ lit view ++ lit " WHERE 1=1") ++
      ((args.flatMap fun arg => appendRestriction [] arg.1 arg.2) ++ lit tail)))

/-- The words of a listing around its catalog and its patterns: each part is bland and stands behind a
blank. -/
structure PlainListing (front view tail : String) (args : List (String × Option Bytes)) : Prop where
  exists_words : ∃ words, bland words = true ∧ lit front = words ++ [ch ' ']
  bland_view : bland (lit "information_schema." ++ lit view ++ lit " WHERE 1=1") = true
  bland_tail : bland (lit tail) = true
  head_tail : (lit tail).head? = some (ch ' ')
  bland_args : ∀ arg ∈ args, bland (lit " AND " ++ lit arg.1 ++ lit " LIKE") = true

theorem segments_listingSql {front view tail : String} {args : List (String × Option Bytes)}
    (h : PlainListing front view tail args) (catalog : Option Bytes) :
    ∃ restrictions, List.Forall₂ (fun arg l => Restricts arg.1 arg.2 l) args restrictions ∧
      segments flSqlSkip (listingSql front view tail catalog args) =
        segments flSqlSkip (lit front) ++ qualifier catalog ++
          segments flSqlSkip (lit "information_schema." ++ lit view ++ lit " WHERE 1=1") ++
          restrictions.flatten ++ segments flSqlSkip (lit tail) := by
  obtain ⟨words, hwords, hfront⟩ := h.exists_words
  have hstart : ∀ d ∈ (lit tail).head?, d = ch ' ' := by
    intro d hd
    rw [h.head_tail] at hd
    cases hd
    rfl
  obtain ⟨restrictions, hrestricts, hscan⟩ := scans_restrictions h.bland_args hstart
  refine ⟨restrictions, hrestricts, ?_⟩
  have hmiddle := scans_bland_append h.bland_view (t :=
    (args.flatMap fun arg => appendRestriction [] arg.1 arg.2) ++ lit tail) fun d hd => by
      rw [head?_restrictions args hstart d hd]
      decide
  have hend : Scans flSqlSkip (lit tail ++ []) (segments flSqlSkip (lit tail)) [] :=
    scans_bland_append h.bland_tail (by simp)
  rw [List.append_nil] at hend
  unfold listingSql
  rw [hfront]
  have hall := (scans_bland_blank hwords _).append
    ((scans_catalog catalog).append (hmiddle.append (hscan.append hend)))
  rw [hall.segments_eq]
  simp only [List.append_assoc]

theorem isListing_listingSql {front view tail : String} {args : List (String × Option Bytes)}
    (h : PlainListing front view tail args) (catalog : Option Bytes) :
    IsListing front view tail catalog args (listingSql front view tail catalog args) := by
  obtain ⟨restrictions, hrestricts, hsegments⟩ := segments_listingSql h catalog
  exact ⟨_, restrictions, qualifies_qualifier catalog, hrestricts, hsegments⟩

/-! ## The two functions -/

theorem plainListing_tables (schema table : Option Bytes) :
    PlainListing "SELECT table_catalog, table_schema, table_name, table_type FROM " "tables"
      " ORDER BY table_schema, table_name" [("table_schema", schema), ("table_name", table)] where
  exists_words := ⟨lit "SELECT table_catalog, table_schema, table_name, table_type FROM", by decide, by decide⟩
  bland_view := by decide
  bland_tail := by decide
  head_tail := by decide
  bland_args := by
    simp only [List.forall_mem_cons]
    decide

theorem plainListing_columns (schema table column : Option Bytes) :
    PlainListing ("SELECT table_catalog, table_schema, table_name, column_name, data_type," ++
        " character_maximum_length, numeric_precision, numeric_scale, is_nullable," ++
        " ordinal_position, column_default FROM ") "columns"
      " ORDER BY table_schema, table_name, ordinal_position"
      [("table_schema", schema), ("table_name", table), ("column_name", column)] where
  exists_words :=
    ⟨lit ("SELECT table_catalog, table_schema, table_name, column_name, data_type," ++
      " character_maximum_length, numeric_precision, numeric_scale, is_nullable," ++
      " ordinal_position, column_default FROM"), by decide, rfl⟩
  bland_view := by decide
  bland_tail := by decide
  head_tail := by decide
  bland_args := by
    simp only [List.forall_mem_cons]
    decide

theorem tablesSql_eq (catalog schema table : Option Bytes) :
    tablesSql catalog schema table =
      listingSql "SELECT table_catalog, table_schema, table_name, table_type FROM " "tables"
        " ORDER BY table_schema, table_name" catalog
        [("table_schema", schema), ("table_name", table)] := by
  have hview : lit "information_schema.tables WHERE 1=1" =
      lit "information_schema." ++ lit "tables" ++ lit " WHERE 1=1" := by decide
  unfold tablesSql
  dsimp only
  rw [appendRestriction_eq (appendRestriction _ _ _), appendRestriction_eq (_ ++ _) "table_schema",
    appendCatalog_eq (lit _), hview]
  unfold listingSql
  simp only [List.append_assoc, List.flatMap_cons, List.flatMap_nil, List.nil_append]

theorem columnsSql_eq (catalog schema table column : Option Bytes) :
    columnsSql catalog schema table column =
      listingSql ("SELECT table_catalog, table_schema, table_name, column_name, data_type," ++
          " character_maximum_length, numeric_precision, numeric_scale, is_nullable," ++
          " ordinal_position, column_default FROM ") "columns"
        " ORDER BY table_schema, table_name, ordinal_position" catalog
        [("table_schema", schema), ("table_name", table), ("column_name", column)] := by
  have hview : lit "information_schema.columns WHERE 1=1" =
      lit "information_schema." ++ lit "columns" ++ lit " WHERE 1=1" := by decide
  unfold columnsSql
  dsimp only
  rw [appendRestriction_eq (appendRestriction _ _ _), appendRestriction_eq (appendRestriction _ _ _),
    appendRestriction_eq (_ ++ _) "table_schema", appendCatalog_eq (lit _), hview]
  unfold listingSql
  simp only [List.append_assoc, List.flatMap_cons, List.flatMap_nil, List.nil_append]

/-- Behind the execution of its query a catalog function sends nothing. -/
theorem runs_catalogResult {query : Bytes} {synth : ResultSet → ResultSet} {stmt : Stmt} {dbc : Dbc}
    {t : Trace} {a : Except Diag Unit × Stmt × Dbc}
    (hruns : Runs (catalogResult query synth stmt dbc) t a) :
    ∃ result, Runs (flProtoExecute dbc query) t result := by
  obtain ⟨t₁, t₂, ⟨listed, dbc'⟩, rfl, hquery, hend⟩ := runs_bind_iff.1 hruns
  obtain ⟨t₁, t₃, ⟨result, dbc''⟩, rfl, hexec, hmiddle⟩ := runs_bind_iff.1 hquery
  have hnil : t₂ = [] := by
    cases listed with
    | error diag => exact (runs_pure_iff.1 hend).1
    | ok listed => exact (runs_pure_iff.1 hend).1
  have hnil' : t₃ = [] := by
    cases result with
    | error e => exact (runs_pure_iff.1 hmiddle).1
    | ok response =>
      dsimp only at hmiddle
      split at hmiddle
      · exact (runs_pure_iff.1 hmiddle).1
      · split at hmiddle
        · exact (runs_pure_iff.1 hmiddle).1
        · exact (runs_pure_iff.1 hmiddle).1
  rw [hnil, hnil', List.append_nil, List.append_nil]
  exact ⟨_, hexec⟩

/-- The query of `SQLTables`, segment by segment. -/
def IsTablesQuery (catalog schema table : Option Bytes) (sql : Bytes) : Prop :=
  IsListing "SELECT table_catalog, table_schema, table_name, table_type FROM " "tables"
    " ORDER BY table_schema, table_name" catalog [("table_schema", schema), ("table_name", table)] sql

/-- The query of `SQLColumns`, segment by segment. -/
def IsColumnsQuery (catalog schema table column : Option Bytes) (sql : Bytes) : Prop :=
  IsListing ("SELECT table_catalog, table_schema, table_name, column_name, data_type," ++
      " character_maximum_length, numeric_precision, numeric_scale, is_nullable," ++
      " ordinal_position, column_default FROM ") "columns"
    " ORDER BY table_schema, table_name, ordinal_position" catalog
    [("table_schema", schema), ("table_name", table), ("column_name", column)] sql

theorem isTablesQuery_tablesSql (catalog schema table : Option Bytes) :
    IsTablesQuery catalog schema table (tablesSql catalog schema table) := by
  rw [tablesSql_eq]
  exact isListing_listingSql (plainListing_tables schema table) catalog

theorem isColumnsQuery_columnsSql (catalog schema table column : Option Bytes) :
    IsColumnsQuery catalog schema table column (columnsSql catalog schema table column) := by
  rw [columnsSql_eq]
  exact isListing_listingSql (plainListing_columns schema table column) catalog

/-- Every statement that `p` sends satisfies `P`. -/
def SendsOnly {α : Type} (P : Bytes → Prop) (p : Call α) : Prop :=
  ∀ t a, Runs p t a → ∀ e ∈ t, ∀ q, e.1 = .post q → e.1.isStatement = true → P q.sql

theorem sendsOnly_catalogResult {P : Bytes → Prop} {query : Bytes} (hquery : P query)
    (synth : ResultSet → ResultSet) (stmt : Stmt) (dbc : Dbc) :
    SendsOnly P (catalogResult query synth stmt dbc) := by
  intro t a hruns e he q hq hstmt
  obtain ⟨result, hexec⟩ := runs_catalogResult hruns
  rw [(posts_execute hexec he hq hstmt).1]
  exact hquery

/-- What the two functions send for a listing is its template, with one identifier for the catalog
and one string for each pattern. -/
theorem catalog_sendsOnly (catalogName schemaName tableName lastName : CatalogArg) (stmt : Stmt)
    (dbc : Dbc) :
    (tablesForm (argToString catalogName) (argToString schemaName) (argToString tableName)
        (argToString lastName) = .listing →
      SendsOnly (IsTablesQuery (argToString catalogName) (argToString schemaName)
          (argToString tableName))
        (sqlTables catalogName schemaName tableName lastName stmt dbc)) ∧
    SendsOnly (IsColumnsQuery (argToString catalogName) (argToString schemaName)
        (argToString tableName) (argToString lastName))
      (sqlColumns catalogName schemaName tableName lastName stmt dbc) := by
  constructor
  · intro hform
    unfold sqlTables
    dsimp only
    rw [hform]
    exact sendsOnly_catalogResult (isTablesQuery_tablesSql _ _ _) _ stmt dbc
  · exact sendsOnly_catalogResult (isColumnsQuery_columnsSql _ _ _ _) _ stmt dbc

/-- A catalog of quotes and a schema that ends in a backslash. -/
theorem catalog_sendsOnly_quotes :
    SendsOnly (IsTablesQuery (some (lit "\"; DROP")) (some (lit "it's\\")) none)
      (sqlTables ⟨some (lit "\"; DROP"), sqlNts⟩ ⟨some (lit "it's\\"), sqlNts⟩ ⟨none, sqlNts⟩
        ⟨none, sqlNts⟩ freshStmt allocDbc) :=
  (catalog_sendsOnly ⟨some (lit "\"; DROP"), sqlNts⟩ ⟨some (lit "it's\\"), sqlNts⟩ ⟨none, sqlNts⟩
    ⟨none, sqlNts⟩ freshStmt allocDbc).1 (by decide)

end FrostlakeOdbc
