import CodeIndex.Query.Tables
import CodeIndex.Proofs.Index.Maps
import CodeIndex.Proofs.Sql.TemplateBody
import CodeIndex.Proofs.Text.Strip
import CodeIndex.Proofs.Text.Trim

/-!
# Tables and their names

A table is kept under its short name, which is its written name without the placeholders in front.
A query is cut in the same way before it is looked up.  Written names hold no blanks, and what is
left behind the placeholders has none of them in front, so every way to write the name of a table
is cut back to its short name, and finds the last table of that name.

* `lookupTable_cases` : everything a look-up of a table can do.
* `names_of_mem_parseTables` : the names of a table that was read from a script.
* `askedName_of_asksFor` : every way to ask for a table is cut back to its short name.
* `lookupSchema_reaches` : a table is found by all its names.
-/

namespace CodeIndex

open Text

/-- The last of the tables that have a short name. -/
def lastNamed? (tables : List Table) (short : String) : Option Table :=
  (tables.filter fun t => t.shortName == short).getLast?

/-- A table is kept under its short name unless a later one has the same. -/
theorem get?_byShortName (tables : List Table) (short : String) :
    (SchemaIndex.ofTables tables).byShortName.get? short = lastNamed? tables short := by
  have hpairs : (tables.map fun t => (t.shortName, t)).filter (fun p => p.1 == short)
      = (tables.filter fun t => t.shortName == short).map fun t => (t.shortName, t) :=
    List.filter_map
  rw [SchemaIndex.ofTables, Dict.get?_ofList, hpairs, List.getLast?_map, Option.map_map]
  exact Option.map_id'

/-- The last table of a short name is a table of that name. -/
theorem shortName_of_lastNamed? {tables : List Table} {short : String} {t : Table}
    (h : lastNamed? tables short = some t) : t ∈ tables ∧ t.shortName = short := by
  obtain ⟨hmem, hshort⟩ := mem_of_getLast?_filter h
  exact ⟨hmem, beq_iff_eq.mp hshort⟩

/-- Of the tables of a short name one is the last. -/
theorem exists_lastNamed? {tables : List Table} {t : Table} (h : t ∈ tables) :
    ∃ last, lastNamed? tables t.shortName = some last :=
  exists_getLast?_filter h (beq_self_eq_true _)

namespace Sql

/-! ## Written names -/

/-- A table name that is read has no blank. -/
theorem not_blank_of_tableName {cs name rest : List Char} (h : tableName cs = some (name, rest)) :
    ∀ c ∈ name, isBlank c = false := by
  have hbare : ∀ left, bareName left = some (name, rest) → ∀ c ∈ name, isBlank c = false := by
    intro left hleft c hc
    cases hrun : left.takeWhile isTableNameChar with
    | nil => simp [bareName, hrun] at hleft
    | cons d run =>
        rw [bareName, hrun, Option.some.injEq, Prod.mk.injEq] at hleft
        rw [← hleft.1, ← hrun] at hc
        have hchar := List.mem_takeWhile_imp hc
        rw [isTableNameChar, Bool.not_eq_true', Bool.or_eq_false_iff] at hchar
        exact hchar.2
  rw [tableName_eq, Option.or_eq_some_iff] at h
  rcases h with h | ⟨-, h⟩
  · exact hbare _ h
  · exact hbare _ h

/-- The name in front of a body has no blank. -/
theorem not_blank_of_namedBody {cs name body : List Char} (h : namedBody cs = some (name, body)) :
    ∀ c ∈ name, isBlank c = false := by
  simp only [namedBody, Option.bind_eq_bind, Option.bind_eq_some_iff] at h
  obtain ⟨⟨read, rest⟩, hname, after, -, heq⟩ := h
  cases heq
  exact not_blank_of_tableName hname

/-- The name of a statement has no blank. -/
theorem not_blank_of_statementHead {cs name body : List Char}
    (h : statementHead cs = some (name, body)) : ∀ c ∈ name, isBlank c = false := by
  rw [statementHead_eq, Option.bind_eq_some_iff] at h
  obtain ⟨rest, -, h⟩ := h
  rw [Option.or_eq_some_iff, Option.bind_eq_some_iff] at h
  rcases h with ⟨left, -, h⟩ | ⟨-, h⟩
  · exact not_blank_of_namedBody h
  · exact not_blank_of_namedBody h

/-- The written name of a table holds no blank, and its short name is what is left of it behind
the placeholders. -/
theorem names_of_mem_parseTables {placeholder script : String} {t : Table}
    (h : t ∈ parseTables placeholder script) :
    (∀ c ∈ t.qualifiedName.toList, isBlank c = false) ∧
      t.shortName = stripTablePrefix t.qualifiedName placeholder := by
  obtain ⟨segment, name, rest, body, tail, -, hhead, -, hname, hshort, -⟩ :=
    exists_of_mem_parseTables h
  refine ⟨?_, hshort⟩
  rw [hname, String.toList_ofList]
  exact not_blank_of_statementHead hhead

end Sql

/-! ## Look-ups of tables -/

/-- The outcome with another text as the query that is echoed where nothing is found. -/
def SchemaOutcome.echoing (query : String) : SchemaOutcome → SchemaOutcome
  | .notFound _ suggestions => .notFound query suggestions
  | outcome => outcome

namespace Query

open Sql

variable {config : Config} {schema : SchemaIndex} {name : String} {t : Table}

/-- The short name that a query asks for. -/
def askedName (config : Config) (name : String) : String :=
  stripTablePrefix (trimmed name) config.schema.tablePrefix

/-- The tables that are kept and whose short or written name contains the text. -/
def partialTables (schema : SchemaIndex) (short : String) : List Table :=
  schema.byShortName.values.filter (isPartialTable (lowered short))

/-- A look-up answers with the table of the name that is asked. -/
theorem lookupTable_of_get? (h : schema.byShortName.get? (askedName config name) = some t) :
    lookupTable config schema name = .table t := by
  rw [askedName] at h
  rw [lookupTable]
  simp only [h]

/-- A look-up takes the table of that short name, or decides among those that match in part. -/
theorem lookupTable_cases (config : Config) (schema : SchemaIndex) (name : String) :
    (∃ t, schema.byShortName.get? (askedName config name) = some t ∧
        lookupTable config schema name = .table t) ∨
      schema.byShortName.get? (askedName config name) = none ∧
        (partialTables schema (askedName config name) = [] ∧
            lookupTable config schema name = .notFound name
              (similarTables config.query schema (lowered (askedName config name))) ∨
          (∃ t, partialTables schema (askedName config name) = [t] ∧
            lookupTable config schema name = .table t) ∨
          lookupTable config schema name
            = .ambiguous (partialTables schema (askedName config name))) := by
  cases hget : schema.byShortName.get? (askedName config name) with
  | some t => exact .inl ⟨t, rfl, lookupTable_of_get? hget⟩
  | none =>
      refine .inr ⟨rfl, ?_⟩
      rw [askedName] at hget
      rw [lookupTable, partialTables, askedName]
      simp only [hget]
      match schema.byShortName.values.filter (isPartialTable
          (lowered (stripTablePrefix (trimmed name) config.schema.tablePrefix))) with
      | [] => exact .inl ⟨rfl, rfl⟩
      | [t] => exact .inr (.inl ⟨t, rfl, rfl⟩)
      | _ :: _ :: _ => exact .inr (.inr rfl)

/-- Queries that ask for the same short name differ in the text they echo only. -/
theorem lookupTable_congr {query query' : String}
    (h : askedName config query = askedName config query') :
    (lookupTable config schema query).echoing query' = lookupTable config schema query' := by
  rw [askedName, askedName] at h
  rw [lookupTable, lookupTable, h]
  dsimp only
  split
  · rfl
  · split <;> rfl

/-! ## Ways to ask for a table -/

/-- A query asks for a table by its written name, or by its short name with any number of
placeholders in front, between any blanks. -/
def AsksFor (placeholder : String) (t : Table) (query : String) : Prop :=
  ∃ front back written : List Char, (∀ c ∈ front, isBlank c = true) ∧
    (∀ c ∈ back, isBlank c = true) ∧ query.toList = front ++ written ++ back ∧
      (written = t.qualifiedName.toList ∨
        ∃ n, written = copies n placeholder.toList ++ t.shortName.toList)

/-- The short name asks for its table. -/
theorem asksFor_shortName (placeholder : String) (t : Table) :
    AsksFor placeholder t t.shortName := by
  refine ⟨[], [], t.shortName.toList, by simp, by simp, by simp, .inr ⟨0, ?_⟩⟩
  rw [copies_zero, List.nil_append]

/-- Copies of a tight word are tight. -/
theorem tight_copies {word : List Char} (hword : Tight word) (n : Nat) :
    Tight (copies n word) := by
  induction n with
  | zero => exact tight_of_not_blank (by simp [copies_zero])
  | succ n ih =>
      rw [copies_succ]
      exact hword.append ih

/-- A text that trimming leaves alone is tight. -/
theorem tight_of_trimmed {s : String} (h : trimmed s = s) : Tight s.toList := by
  rw [tight_iff, ← String.toList_ofList (l := trim s.toList)]
  exact congrArg String.toList h

/-- The name that is asked for is what stands between the blanks, without placeholders. -/
theorem askedName_of_tight {front written back : List Char} (hwritten : Tight written)
    (hfront : ∀ c ∈ front, isBlank c = true) (hback : ∀ c ∈ back, isBlank c = true)
    (hname : name.toList = front ++ written ++ back) : askedName config name
      = String.ofList (stripAll config.schema.tablePrefix.toList written) := by
  rw [askedName, stripTablePrefix, trimmed, String.toList_ofList, hname,
    hwritten.trim_between hfront hback]

/-- The short name of a table holds no blank, and no placeholder stands in front of it. -/
theorem shortName_of_mem_parseTables {placeholder script : String}
    (h : t ∈ parseTables placeholder script) :
    Tight t.shortName.toList ∧
      stripAll placeholder.toList t.shortName.toList = t.shortName.toList := by
  obtain ⟨hblank, hshort⟩ := names_of_mem_parseTables h
  have hname : t.shortName.toList = stripAll placeholder.toList t.qualifiedName.toList := by
    rw [hshort, stripTablePrefix, String.toList_ofList]
  rw [hname]
  refine ⟨tight_of_not_blank ?_, stripAll_stripAll _ _⟩
  intro c hc
  exact hblank c ((stripAll_suffix _ _).subset hc)

/-- **Every way to ask for a table is cut back to its short name.** -/
theorem askedName_of_asksFor {script query : String}
    (htrimmed : trimmed config.schema.tablePrefix = config.schema.tablePrefix)
    (ht : t ∈ parseTables config.schema.tablePrefix script)
    (hquery : AsksFor config.schema.tablePrefix t query) :
    askedName config query = t.shortName := by
  obtain ⟨front, back, written, hfront, hback, hname, hwritten⟩ := hquery
  obtain ⟨hblank, hshort⟩ := names_of_mem_parseTables ht
  obtain ⟨htight, hstrip⟩ := shortName_of_mem_parseTables ht
  rcases hwritten with rfl | ⟨n, rfl⟩
  · rw [askedName_of_tight (tight_of_not_blank hblank) hfront hback hname, hshort]
    rfl
  · have hplaceholder : Tight config.schema.tablePrefix.toList := tight_of_trimmed htrimmed
    rw [askedName_of_tight ((tight_copies hplaceholder n).append htight) hfront hback hname,
      stripAll_copies, hstrip, String.ofList_toList]

/-- A placeholder in front of a query changes nothing. -/
theorem askedName_append {query : String}
    (htrimmed : trimmed config.schema.tablePrefix = config.schema.tablePrefix)
    (hquery : trimmed query = query) :
    askedName config (config.schema.tablePrefix ++ query) = askedName config query := by
  have hplaceholder := tight_of_trimmed htrimmed
  have htext := tight_of_trimmed hquery
  have hone : config.schema.tablePrefix.toList = copies 1 config.schema.tablePrefix.toList := by
    rw [copies_succ, copies_zero, List.append_nil]
  have hname : (config.schema.tablePrefix ++ query).toList
      = [] ++ (config.schema.tablePrefix.toList ++ query.toList) ++ [] := by simp
  have hname' : query.toList = [] ++ query.toList ++ [] := by simp
  rw [askedName_of_tight (hplaceholder.append htext) (by simp) (by simp) hname,
    askedName_of_tight htext (by simp) (by simp) hname', ← stripAll_copies 1 _ query.toList,
    ← hone]

/-- A table that is listed is the last one of its short name. -/
theorem lastNamed?_of_mem_values {tables : List Table}
    (h : t ∈ (SchemaIndex.ofTables tables).byShortName.values) :
    lastNamed? tables t.shortName = some t := by
  obtain ⟨⟨short, value⟩, hmem, rfl⟩ := List.mem_map.mp h
  have hget := (Dict.mem_entries_iff _).mp hmem
  rw [get?_byShortName] at hget
  obtain ⟨-, hshort⟩ := shortName_of_lastNamed? hget
  rw [hshort]
  exact hget

/-- **A table is found by all its names.**  Its written name, its short name and the placeholder
any number of times in front of it find the last table of that short name; so does the short name
of every table that an ambiguous query lists; and the placeholder in front of a query changes at
most the text that is echoed. -/
theorem lookupSchema_reaches (script : String) (config : Config)
    (htrimmed : trimmed config.schema.tablePrefix = config.schema.tablePrefix) :
    (∀ t ∈ parseTables config.schema.tablePrefix script, ∃ last,
        lastNamed? (parseTables config.schema.tablePrefix script) t.shortName = some last ∧
          ∀ query, AsksFor config.schema.tablePrefix t query →
            lookupSchema config (.ofTables (parseTables config.schema.tablePrefix script))
              (.table query) = .table last) ∧
      (∀ query listed,
        lookupSchema config (.ofTables (parseTables config.schema.tablePrefix script))
            (.table query) = .ambiguous listed →
          ∀ t ∈ listed,
            lookupSchema config (.ofTables (parseTables config.schema.tablePrefix script))
              (.table t.shortName) = .table t) ∧
      ∀ schema query, trimmed query = query →
        (lookupSchema config schema (.table (config.schema.tablePrefix ++ query))).echoing query
          = lookupSchema config schema (.table query) := by
  refine ⟨?_, ?_, ?_⟩
  · intro t ht
    obtain ⟨last, hlast⟩ := exists_lastNamed? ht
    refine ⟨last, hlast, ?_⟩
    intro query hquery
    rw [lookupSchema]
    refine lookupTable_of_get? ?_
    rw [askedName_of_asksFor htrimmed ht hquery, get?_byShortName]
    exact hlast
  · intro query listed hlisted t ht
    have hvalues : t ∈ (SchemaIndex.ofTables
        (parseTables config.schema.tablePrefix script)).byShortName.values := by
      rcases lookupTable_cases config (.ofTables (parseTables config.schema.tablePrefix script))
        query with ⟨_, -, hout⟩ | ⟨-, ⟨-, hout⟩ | ⟨_, -, hout⟩ | hout⟩
      all_goals
        rw [lookupSchema, hout] at hlisted
        cases hlisted
      exact List.mem_of_mem_filter ht
    have hlast := lastNamed?_of_mem_values hvalues
    rw [lookupSchema]
    refine lookupTable_of_get? ?_
    rw [askedName_of_asksFor htrimmed (shortName_of_lastNamed? hlast).1 ?_, get?_byShortName]
    · exact hlast
    · exact asksFor_shortName _ t
  · intro schema query hquery
    rw [lookupSchema, lookupSchema]
    exact lookupTable_congr (askedName_append htrimmed hquery)

/-- Two statements for tables of one short name. -/
def usersScript : String := "CREATE TABLE `#__users` (id int);\nCREATE TABLE users (name text);"

/-- The first of them. -/
def firstUsers : Table where
  qualifiedName := "#__users"
  shortName := "users"
  columns := [{ name := "id", type := "int" }]

/-- The second. -/
def lastUsers : Table where
  qualifiedName := "users"
  shortName := "users"
  columns := [{ name := "name", type := "text" }]

/-- Who asks for the first with two placeholders in front gets the second. -/
theorem lookupSchema_reaches_users :
    trimmed ({} : Config).schema.tablePrefix = ({} : Config).schema.tablePrefix ∧
      firstUsers ∈ parseTables "#__" usersScript ∧
      AsksFor "#__" firstUsers " #__#__users\n" ∧
      lookupSchema {} (.ofTables (parseTables "#__" usersScript)) (.table " #__#__users\n")
        = .table lastUsers := by
  have htrimmed : trimmed ({} : Config).schema.tablePrefix = ({} : Config).schema.tablePrefix := by
    decide
  have hfirst : firstUsers ∈ parseTables "#__" usersScript := by decide +kernel
  have hasks : AsksFor "#__" firstUsers " #__#__users\n" :=
    ⟨[' '], ['\n'], _, by decide, by decide, rfl, .inr ⟨2, rfl⟩⟩
  have hnamed : lastNamed? (parseTables "#__" usersScript) "users" = some lastUsers := by
    decide +kernel
  obtain ⟨hall, -, -⟩ := lookupSchema_reaches usersScript {} htrimmed
  obtain ⟨last, hlast, hfound⟩ := hall firstUsers hfirst
  have heq : last = lastUsers := Option.some.inj (hlast.symm.trans hnamed)
  rw [heq] at hfound
  exact ⟨htrimmed, hfirst, hasks, hfound _ hasks⟩

end Query

end CodeIndex
