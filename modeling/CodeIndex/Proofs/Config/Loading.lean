import Mathlib.Tactic.MkIffOfInductiveProp
import CodeIndex.ConfigFile

/-!
# The configuration in use

A settings text is read section by section.  A section that is there gives every field of its
record, each under its key and of its kind; a section that is not there keeps its defaults.  What
comes out is then accepted as a whole or not at all.  So a project directory is left with one of two
configurations: that of its file, or the defaults.

* `fault?_eq_none_iff` : which configurations are accepted.
* `project?_eq_some_iff` and its like, `ofToml?_eq_some_iff` : what a settings text has to say.
* `ofProject?_eq_some_iff` : when a project directory has a configuration of its own.
* `loads_load` : the configuration in use.
-/

namespace CodeIndex

/-! ## Accepted configurations -/

/-- What is asked of a configuration. -/
@[mk_iff]
structure Config.Valid (c : Config) : Prop where
  name : c.project.name ≠ ""
  sourceRoot : c.project.sourceRoot ≠ ""
  schemaRoot : c.project.schemaRoot ≠ ""
  extensions : c.indexing.extensions ≠ []
  schemaExtensions : c.indexing.schemaExtensions ≠ []
  batchSize : 0 < c.indexing.batchSize
  defaultLimit : 0 < c.query.defaultLimit
  maxAmbiguous : 0 < c.query.maxAmbiguous
  maxChars : 0 < c.output.maxChars
  indexFile : c.storage.indexFile ≠ ""
  schemaFile : c.storage.schemaFile ≠ ""
  level : c.logging.level ∈ ["error", "warn", "info", "debug", "trace"]
  format : c.logging.format ∈ ["compact", "pretty", "json"]

/-- A configuration without a fault is a valid one. -/
theorem Config.fault?_eq_none_iff {c : Config} : c.fault? = none ↔ c.Valid := by
  have hfaults : c.fault? = none ↔ ∀ fault ∈ c.faults, fault.1 = false := by
    rw [fault?, Option.map_eq_none_iff, List.find?_eq_none]
    simp only [Bool.not_eq_true]
  rw [hfaults, valid_iff]
  simp only [faults, levels, formats, List.forall_mem_cons, Bool.or_eq_false_iff,
    Bool.not_eq_false', List.contains_iff_mem, beq_eq_false_iff_ne, List.isEmpty_eq_false_iff,
    String.isEmpty_eq_false_iff, Nat.pos_iff_ne_zero, List.not_mem_nil, false_implies,
    implies_true, and_true, and_assoc]

/-! ## Sections -/

namespace Toml

/-- A value gives fields, each with its key: a table under their keys, a list in its first items.  A
field that is left out stands under no key.  A point in time counts as a table without keys. -/
def Gives (fields : List (String × Option Toml)) : Toml → Prop
  | .table _ entries => ∀ field ∈ fields, find? field.1 entries = field.2
  | .arr items | .tables items => fields.map Prod.snd <+: items.map some
  | .time => ∀ field ∈ fields, field.2 = none
  | _ => False

/-- The fields of a section are read from what gives them, in their order. -/
theorem gives_iff {fields : List (String × Option Toml)} {t : Toml} :
    t.Gives fields ↔ ∃ rest,
      Config.fields (fields.map Prod.fst) t = some (fields.map Prod.snd ++ rest) := by
  have hlookup : ∀ look : String → Option Toml, (∀ field ∈ fields, look field.1 = field.2) ↔
      ∃ rest, (fields.map Prod.fst).map look = fields.map Prod.snd ++ rest := by
    intro look
    rw [List.map_map]
    constructor
    · intro h
      exact ⟨[], by rw [List.append_nil]; exact List.map_congr_left h⟩
    · rintro ⟨rest, h⟩
      have hrest : rest = [] := by
        have hlength := congrArg List.length h
        rw [List.length_append, List.length_map, List.length_map] at hlength
        exact List.length_eq_zero_iff.mp (by omega)
      rw [hrest, List.append_nil] at h
      exact List.map_inj_left.mp h
  have hitems : ∀ items : List Toml, fields.map Prod.snd <+: items.map some ↔
      ∃ rest, (if items.length < (fields.map Prod.fst).length then none
        else some (items.map some)) = some (fields.map Prod.snd ++ rest) := by
    intro items
    constructor
    · rintro ⟨rest, h⟩
      have hlength := congrArg List.length h
      rw [List.length_append, List.length_map, List.length_map] at hlength
      refine ⟨rest, ?_⟩
      rw [if_neg (by rw [List.length_map]; omega), h]
    · rintro ⟨rest, h⟩
      split at h
      · cases h
      · exact ⟨rest, (Option.some.inj h).symm⟩
  cases t with
  | table form entries =>
      simp only [Gives, Config.fields, Option.some.injEq]
      exact hlookup fun key => find? key entries
  | time =>
      simp only [Gives, Config.fields, Option.some.injEq]
      refine Iff.trans ?_ (hlookup fun _ => none)
      simp only [eq_comm]
  | arr items => exact hitems items
  | tables items => exact hitems items
  | str | int | real | bool => simp [Gives, Config.fields]

end Toml

namespace Config

/-- A text is read from a string and from nothing else. -/
theorem text?_eq_some_iff {v : Option Toml} {s : String} :
    text? v = some s ↔ v = some (.str s) := by
  rw [text?.eq_def]
  split <;> simp_all

/-- An absent text is read as absent. -/
theorem maybeText?_eq_some_iff {v : Option Toml} {s : Option String} :
    maybeText? v = some s ↔ v = s.map .str := by
  rw [maybeText?.eq_def]
  split
  · cases s <;> simp
  · cases s <;> simp [eq_comm]
  · cases s <;> simp_all

/-- A flag is read from a boolean and from nothing else. -/
theorem flag?_eq_some_iff {v : Option Toml} {b : Bool} :
    flag? v = some b ↔ v = some (.bool b) := by
  rw [flag?.eq_def]
  split
  · simp
  · rename_i hother
    simpa using hother b

/-- A count is read from a number that is not negative. -/
theorem count?_eq_some_iff {v : Option Toml} {n : Nat} :
    count? v = some n ↔ v = some (.int n) := by
  rw [count?.eq_def]
  split
  · rw [Int.mem_toNat?, Option.some.injEq, Toml.int.injEq]
  · simp_all

/-- Texts are read from an array of strings alone. -/
theorem mapM_text?_eq_some_iff {items : List Toml} {texts : List String} :
    (items.mapM fun item => text? (some item)) = some texts ↔ items = texts.map .str := by
  induction items generalizing texts with
  | nil => cases texts <;> simp
  | cons item items ih =>
      cases texts with
      | nil => simp [Option.bind_eq_some_iff]
      | cons first texts => simp [Option.bind_eq_some_iff, text?_eq_some_iff, ih]

/-- A list of texts is read from such an array. -/
theorem texts?_eq_some_iff {v : Option Toml} {texts : List String} :
    texts? v = some texts ↔ v = some (.arr (texts.map .str)) := by
  rw [texts?.eq_def]
  split
  · rw [mapM_text?_eq_some_iff, Option.some.injEq, Toml.arr.injEq]
  · simp_all

end Config

/-- The fields of the section on the project. -/
def ProjectSettings.fields (s : ProjectSettings) : List (String × Option Toml) := [
  ("name", some (.str s.name)), ("source_root", some (.str s.sourceRoot)),
  ("schema_root", some (.str s.schemaRoot))]

/-- The fields of the section on provenance. -/
def SourceSettings.fields (s : SourceSettings) : List (String × Option Toml) := [
  ("commit", s.commit.map .str), ("branch", s.branch.map .str)]

/-- The fields of the section on indexing. -/
def IndexingSettings.fields (s : IndexingSettings) : List (String × Option Toml) := [
  ("exclude", some (.arr (s.excluded.map .str))), ("include", some (.arr (s.included.map .str))),
  ("extensions", some (.arr (s.extensions.map .str))),
  ("schema_extensions", some (.arr (s.schemaExtensions.map .str))),
  ("schema_recursive", some (.bool s.schemaRecursive)), ("batch_size", some (.int s.batchSize)),
  ("concurrent", some (.bool s.concurrent))]

/-- The fields of the section on queries. -/
def QuerySettings.fields (s : QuerySettings) : List (String × Option Toml) := [
  ("default_limit", some (.int s.defaultLimit)), ("max_ambiguous", some (.int s.maxAmbiguous)),
  ("max_suggestions", some (.int s.maxSuggestions)),
  ("max_edit_distance", some (.int s.maxEditDistance))]

/-- The fields of the section on the schema. -/
def SchemaSettings.fields (s : SchemaSettings) : List (String × Option Toml) := [
  ("table_prefix", some (.str s.tablePrefix)), ("component_prefix", some (.str s.componentPrefix))]

/-- The fields of the section on answers. -/
def OutputSettings.fields (s : OutputSettings) : List (String × Option Toml) := [
  ("max_chars", some (.int s.maxChars))]

/-- The fields of the section on storage. -/
def StorageSettings.fields (s : StorageSettings) : List (String × Option Toml) := [
  ("index_file", some (.str s.indexFile)), ("schema_file", some (.str s.schemaFile))]

/-- The fields of the section on logging. -/
def LoggingSettings.fields (s : LoggingSettings) : List (String × Option Toml) := [
  ("level", some (.str s.level)), ("format", some (.str s.format))]

namespace Config

variable {t : Toml}

/-- A section is read from what gives its fields, if its record is made of the values of these
fields, whatever comes after them, and of nothing else. -/
theorem fields_bind_iff {α : Type} {keys : List String} {made : List (Option Toml) → Option α}
    {written : List (String × Option Toml)} {s : α} (hkeys : written.map Prod.fst = keys)
    (hmade : ∀ rest, made (written.map Prod.snd ++ rest) = some s)
    (honly : ∀ values, made values = some s → ∃ rest, values = written.map Prod.snd ++ rest) :
    fields keys t >>= made = some s ↔ t.Gives written := by
  rw [Toml.gives_iff, hkeys, Option.bind_eq_bind, Option.bind_eq_some_iff]
  constructor
  · rintro ⟨values, hfields, h⟩
    obtain ⟨rest, rfl⟩ := honly values h
    exact ⟨rest, hfields⟩
  · rintro ⟨rest, hfields⟩
    exact ⟨_, hfields, hmade rest⟩

/-- What is read of `[project]` is what its fields give. -/
theorem project?_eq_some_iff {s : ProjectSettings} : project? t = some s ↔ t.Gives s.fields := by
  refine fields_bind_iff rfl (fun _ => rfl) fun values h => ?_
  match values with
  | [] | [_] | [_, _] => cases h
  | name :: sourceRoot :: schemaRoot :: rest =>
      simp only [Option.bind_eq_bind, Option.bind_eq_some_iff, text?_eq_some_iff] at h
      obtain ⟨_, rfl, _, rfl, _, rfl, ⟨⟩⟩ := h
      exact ⟨rest, rfl⟩

/-- What is read of `[source]` is what its fields give. -/
theorem source?_eq_some_iff {s : SourceSettings} : source? t = some s ↔ t.Gives s.fields := by
  refine fields_bind_iff rfl ?_ fun values h => ?_
  · intro rest
    have hmaybe (text : Option String) : maybeText? (text.map .str) = some text :=
      maybeText?_eq_some_iff.mpr rfl
    simp [SourceSettings.fields, hmaybe]
  match values with
  | [] | [_] => cases h
  | commit :: branch :: rest =>
      simp only [Option.bind_eq_bind, Option.bind_eq_some_iff, maybeText?_eq_some_iff] at h
      obtain ⟨_, rfl, _, rfl, ⟨⟩⟩ := h
      exact ⟨rest, rfl⟩

/-- What is read of `[indexing]` is what its fields give. -/
theorem indexing?_eq_some_iff {s : IndexingSettings} :
    indexing? t = some s ↔ t.Gives s.fields := by
  refine fields_bind_iff rfl ?_ fun values h => ?_
  · intro rest
    have htexts (texts : List String) : texts? (some (.arr (texts.map .str))) = some texts :=
      texts?_eq_some_iff.mpr rfl
    have hcount (n : Nat) : count? (some (.int n)) = some n := count?_eq_some_iff.mpr rfl
    simp [IndexingSettings.fields, htexts, hcount, flag?]
  match values with
  | [] | [_] | [_, _] | [_, _, _] | [_, _, _, _] | [_, _, _, _, _] | [_, _, _, _, _, _] => cases h
  | excluded :: included :: extensions :: schemaExtensions :: recursive :: batchSize ::
      concurrent :: rest =>
      simp only [Option.bind_eq_bind, Option.bind_eq_some_iff, texts?_eq_some_iff,
        flag?_eq_some_iff, count?_eq_some_iff] at h
      obtain ⟨_, rfl, _, rfl, _, rfl, _, rfl, _, rfl, _, rfl, _, rfl, ⟨⟩⟩ := h
      exact ⟨rest, rfl⟩

/-- What is read of `[query]` is what its fields give. -/
theorem query?_eq_some_iff {s : QuerySettings} : query? t = some s ↔ t.Gives s.fields := by
  refine fields_bind_iff rfl (fun _ => rfl) fun values h => ?_
  match values with
  | [] | [_] | [_, _] | [_, _, _] => cases h
  | limit :: ambiguous :: suggestions :: distance :: rest =>
      simp only [Option.bind_eq_bind, Option.bind_eq_some_iff, count?_eq_some_iff] at h
      obtain ⟨_, rfl, _, rfl, _, rfl, _, rfl, ⟨⟩⟩ := h
      exact ⟨rest, rfl⟩

/-- What is read of `[schema]` is what its fields give. -/
theorem schema?_eq_some_iff {s : SchemaSettings} : schema? t = some s ↔ t.Gives s.fields := by
  refine fields_bind_iff rfl (fun _ => rfl) fun values h => ?_
  match values with
  | [] | [_] => cases h
  | table :: component :: rest =>
      simp only [Option.bind_eq_bind, Option.bind_eq_some_iff, text?_eq_some_iff] at h
      obtain ⟨_, rfl, _, rfl, ⟨⟩⟩ := h
      exact ⟨rest, rfl⟩

/-- What is read of `[output]` is what its fields give. -/
theorem output?_eq_some_iff {s : OutputSettings} : output? t = some s ↔ t.Gives s.fields := by
  refine fields_bind_iff rfl (fun _ => rfl) fun values h => ?_
  match values with
  | [] => cases h
  | maxChars :: rest =>
      simp only [Option.bind_eq_bind, Option.bind_eq_some_iff, count?_eq_some_iff] at h
      obtain ⟨_, rfl, ⟨⟩⟩ := h
      exact ⟨rest, rfl⟩

/-- What is read of `[storage]` is what its fields give. -/
theorem storage?_eq_some_iff {s : StorageSettings} : storage? t = some s ↔ t.Gives s.fields := by
  refine fields_bind_iff rfl (fun _ => rfl) fun values h => ?_
  match values with
  | [] | [_] => cases h
  | indexFile :: schemaFile :: rest =>
      simp only [Option.bind_eq_bind, Option.bind_eq_some_iff, text?_eq_some_iff] at h
      obtain ⟨_, rfl, _, rfl, ⟨⟩⟩ := h
      exact ⟨rest, rfl⟩

/-- What is read of `[logging]` is what its fields give. -/
theorem logging?_eq_some_iff {s : LoggingSettings} : logging? t = some s ↔ t.Gives s.fields := by
  refine fields_bind_iff rfl (fun _ => rfl) fun values h => ?_
  match values with
  | [] | [_] => cases h
  | level :: format :: rest =>
      simp only [Option.bind_eq_bind, Option.bind_eq_some_iff, text?_eq_some_iff] at h
      obtain ⟨_, rfl, _, rfl, ⟨⟩⟩ := h
      exact ⟨rest, rfl⟩

end Config

/-! ## Settings texts -/

/-- A section of a table of settings: what stands under its key gives all its fields, or nothing
stands there and it keeps its defaults. -/
def Toml.HasSection {α : Type} (entries : List (String × Toml)) (key : String)
    (fields : α → List (String × Option Toml)) (default value : α) : Prop :=
  (∃ t, find? key entries = some t ∧ t.Gives (fields value)) ∨
    find? key entries = none ∧ value = default

/-- The entries of a settings text describe a configuration, section by section. -/
structure Config.Describes (entries : List (String × Toml)) (c : Config) : Prop where
  project : Toml.HasSection entries "project" ProjectSettings.fields {} c.project
  source : Toml.HasSection entries "source" SourceSettings.fields {} c.source
  indexing : Toml.HasSection entries "indexing" IndexingSettings.fields {} c.indexing
  query : Toml.HasSection entries "query" QuerySettings.fields {} c.query
  schema : Toml.HasSection entries "schema" SchemaSettings.fields {} c.schema
  output : Toml.HasSection entries "output" OutputSettings.fields {} c.output
  storage : Toml.HasSection entries "storage" StorageSettings.fields {} c.storage
  logging : Toml.HasSection entries "logging" LoggingSettings.fields {} c.logging

namespace Config

/-- A section that is missing counts as its default. -/
theorem sectionOr_eq_some_iff {α : Type} {read : Toml → Option α}
    {written : α → List (String × Option Toml)}
    (hread : ∀ {t value}, read t = some value ↔ t.Gives (written value)) {default value : α}
    {key : String} {entries : List (String × Toml)} :
    sectionOr read default key entries = some value ↔
      Toml.HasSection entries key written default value := by
  rw [sectionOr, Toml.HasSection]
  cases Toml.find? key entries with
  | none => simp [eq_comm]
  | some t => simp [hread]

/-- A configuration is read from a table that describes it. -/
theorem ofToml?_eq_some_iff {t : Toml} {c : Config} :
    ofToml? t = some c ↔ ∃ form entries, t = .table form entries ∧ c.Describes entries := by
  cases t with
  | table form entries =>
      simp only [ofToml?, Option.bind_eq_bind, Option.bind_eq_some_iff, Option.some.injEq,
        sectionOr_eq_some_iff project?_eq_some_iff, sectionOr_eq_some_iff source?_eq_some_iff,
        sectionOr_eq_some_iff indexing?_eq_some_iff, sectionOr_eq_some_iff query?_eq_some_iff,
        sectionOr_eq_some_iff schema?_eq_some_iff, sectionOr_eq_some_iff output?_eq_some_iff,
        sectionOr_eq_some_iff storage?_eq_some_iff, sectionOr_eq_some_iff logging?_eq_some_iff]
      constructor
      · rintro ⟨_, hproject, _, hsource, _, hindexing, _, hquery, _, hschema, _, houtput, _,
          hstorage, _, hlogging, rfl⟩
        exact ⟨form, entries, rfl, hproject, hsource, hindexing, hquery, hschema, houtput, hstorage,
          hlogging⟩
      · rintro ⟨_, _, heq, h⟩
        cases heq
        exact ⟨_, h.project, _, h.source, _, h.indexing, _, h.query, _, h.schema, _, h.output, _,
          h.storage, _, h.logging, rfl⟩
  | str | int | real | bool | time | arr | tables => simp [ofToml?]

-- A section that lacks one of its keys is refused; no default fills the gap.
example (form : Toml.Form) : ofToml? (.table form [("logging", .table form
    [("level", .str "debug")])]) = none := rfl

/-- A text is the settings text of a configuration that is accepted. -/
def Accepts (text : String) (c : Config) : Prop :=
  ∃ form entries, Toml.parse? text = some (.table form entries) ∧ c.Describes entries ∧ c.Valid

/-- A text is accepted exactly if it gives a valid configuration. -/
theorem ofText_eq_ok_iff {text : String} {c : Config} : ofText text = .ok c ↔ Accepts text c := by
  have hread : ∀ c, (Toml.parse? text).bind ofToml? = some c ↔
      ∃ form entries, Toml.parse? text = some (.table form entries) ∧ c.Describes entries := by
    intro c
    rw [Option.bind_eq_some_iff]
    simp only [ofToml?_eq_some_iff]
    constructor
    · rintro ⟨_, hparse, form, entries, rfl, h⟩
      exact ⟨form, entries, hparse, h⟩
    · rintro ⟨form, entries, hparse, h⟩
      exact ⟨_, hparse, form, entries, rfl, h⟩
  have haccepts : Accepts text c ↔ (Toml.parse? text).bind ofToml? = some c ∧ c.fault? = none := by
    rw [hread, fault?_eq_none_iff]
    constructor
    · rintro ⟨form, entries, hparse, h, hvalid⟩
      exact ⟨⟨form, entries, hparse, h⟩, hvalid⟩
    · rintro ⟨⟨form, entries, hparse, h⟩, hvalid⟩
      exact ⟨form, entries, hparse, h, hvalid⟩
  rw [haccepts, ofText]
  cases (Toml.parse? text).bind ofToml? with
  | none => simp
  | some config =>
      simp only [Option.some.injEq]
      cases hfault : config.fault? with
      | none =>
          simp only [Except.ok.injEq]
          constructor
          · rintro rfl
            exact ⟨rfl, hfault⟩
          · exact And.left
      | some fault =>
          simp only [reduceCtorEq, false_iff]
          rintro ⟨rfl, hnone⟩
          rw [hfault] at hnone
          cases hnone

/-! ## Project directories -/

variable {disk : Disk} {dir : String} {c : Config}

/-- The configuration file of a project directory is a settings text of that configuration, which is
accepted. -/
def FileGives (disk : Disk) (dir : String) (c : Config) : Prop :=
  ∃ text, disk.readText? (Path.join dir configFile) = some text ∧ Accepts text c

/-- A file gives a configuration exactly if its text is accepted. -/
theorem ofFile_eq_ok_iff :
    ofFile disk (Path.join dir configFile) = .ok c ↔ FileGives disk dir c := by
  rw [ofFile, FileGives]
  cases disk.readText? (Path.join dir configFile) with
  | none => simp
  | some text => simp [ofText_eq_ok_iff]

/-- A project has a configuration exactly if its file is there and gives one. -/
theorem ofProject?_eq_some_iff : ofProject? disk dir = .ok (some c) ↔
    disk.pathExists (Path.join dir configFile) = true ∧ FileGives disk dir c := by
  rw [← ofFile_eq_ok_iff]
  simp only [ofProject?]
  split
  · rename_i hexists
    cases ofFile disk (Path.join dir configFile) <;> simp [hexists, Except.map]
  · rename_i hexists
    simp [hexists]

/-- A project has no configuration exactly if there is no file. -/
theorem ofProject?_eq_none_iff : ofProject? disk dir = .ok none ↔
    disk.pathExists (Path.join dir configFile) = false := by
  simp only [ofProject?]
  split
  · rename_i hexists
    cases ofFile disk (Path.join dir configFile) <;> simp [hexists, Except.map]
  · rename_i hexists
    simp [hexists]

/-- What a project directory makes of its configuration file: the configuration in use and the error
that is reported. -/
structure Loads (disk : Disk) (dir : String) (config : Config) (problem : Option ConfigError) :
    Prop where
  /-- The configuration in use passes the check. -/
  checked : config.fault? = none
  /-- Both ways to ask for it agree. -/
  same : ofProject disk dir = config
  /-- It is that of the file, all of it, if the file has one. -/
  file : ∀ c, ofProject? disk dir = .ok (some c) → config = c ∧ FileGives disk dir c
  /-- It is the default, all of it, if there is no file. -/
  missing : ofProject? disk dir = .ok none →
    config = {} ∧ disk.pathExists (Path.join dir configFile) = false
  /-- It is the default, all of it, if there is a file that gives none. -/
  unusable : ∀ e, ofProject? disk dir = .error e →
    config = {} ∧ disk.pathExists (Path.join dir configFile) = true ∧ ∀ c, ¬FileGives disk dir c
  /-- An error is reported for such a file and for no other reason. -/
  problem_iff : ∀ e, problem = some e ↔ ofProject? disk dir = .error e

/-- Loading succeeds with what the project has, or with the defaults. -/
theorem load_of_ok {found : Option Config} (h : ofProject? disk dir = .ok found) :
    load disk dir = (found.getD {}, none) := by
  simp [load, h]

/-- The configuration of a project is the loaded one, without its warning. -/
theorem ofProject_eq_load : ofProject disk dir = (load disk dir).1 := by
  rw [ofProject.eq_def, load.eq_def]
  rcases ofProject? disk dir with e | _ | c <;> rfl

/-- A file that is there and cannot be used is one that gives no configuration. -/
theorem not_fileGives_of_error {e : ConfigError} (h : ofProject? disk dir = .error e) :
    disk.pathExists (Path.join dir configFile) = true ∧ ∀ c, ¬FileGives disk dir c := by
  have hexists : disk.pathExists (Path.join dir configFile) = true := by
    rw [← Bool.not_eq_false, ← ofProject?_eq_none_iff, h]
    exact nofun
  refine ⟨hexists, fun c hc => ?_⟩
  have hsome := ofProject?_eq_some_iff.mpr ⟨hexists, hc⟩
  rw [h] at hsome
  cases hsome

/-- A configuration from a file has no fault. -/
theorem FileGives.fault? (h : FileGives disk dir c) : c.fault? = none := by
  obtain ⟨_, _, _, _, _, _, hvalid⟩ := h
  exact fault?_eq_none_iff.mpr hvalid

/-- **Only accepted configurations are used, and each of them whole.**  With any disk and any
directory, the configuration in use is that of the file, if the file has one that is accepted, and
else the default; an error is reported for a file that has none. -/
theorem loads_load (disk : Disk) (dir : String) :
    Loads disk dir (load disk dir).1 (load disk dir).2 := by
  refine ⟨?checked, ofProject_eq_load, ?file, ?missing, ?unusable, ?problem⟩
  case checked =>
    rcases hproject : ofProject? disk dir with e | _ | c
    · rw [load_of_error hproject]
      exact fault?_default
    · rw [load_of_ok hproject]
      exact fault?_default
    · rw [load_of_ok hproject]
      exact (ofProject?_eq_some_iff.mp hproject).2.fault?
  case file =>
    intro c hproject
    rw [load_of_ok hproject]
    exact ⟨rfl, (ofProject?_eq_some_iff.mp hproject).2⟩
  case missing =>
    intro hproject
    rw [load_of_ok hproject]
    exact ⟨rfl, ofProject?_eq_none_iff.mp hproject⟩
  case unusable =>
    intro e hproject
    rw [load_of_error hproject]
    exact ⟨rfl, not_fileGives_of_error hproject⟩
  case problem =>
    intro e
    cases hproject : ofProject? disk dir with
    | error e' => simp [load_of_error hproject]
    | ok found => simp [load_of_ok hproject]

end Config

end CodeIndex
