import CodeIndex.Index
import CodeIndex.Json.Printer
import CodeIndex.Json.Reader
import CodeIndex.Json.Record

/-!
# Records of an index as JSON

Each record has one written form, with all its fields in a fixed order and null for what
it lacks, and a reader that accepts that form.
-/

namespace CodeIndex

open Json

/-- The kinds of declaration by their words. -/
def DeclarationKind.choices : List (String × DeclarationKind) :=
  [DeclarationKind.cls, .iface, .trt].map fun k => (k.word, k)

/-- The visibilities by their words. -/
def Visibility.choices : List (String × Visibility) :=
  [Visibility.pub, .prot, .priv].map fun v => (v.word, v)

/-- The kinds of key by their words. -/
def KeyKind.choices : List (String × KeyKind) :=
  [KeyKind.primary, .unique, .index, .fulltext].map fun k => (k.word, k)

/-- Write a parameter. -/
def Parameter.toJson (p : Parameter) : Json := .obj [
  ("name", .str p.name), ("type", optional p.type), ("defaultValue", optional p.default),
  ("isVariadic", .bool p.isVariadic), ("isByReference", .bool p.isByReference)]

/-- Read a parameter. -/
def Parameter.ofJson? (j : Json) : Option Parameter := do
  match ← record ["name", "type", "defaultValue", "isVariadic", "isByReference"] j with
  | [name, type, default, isVariadic, isByReference] =>
    some {
      name := ← needed asString? name
      type := ← allowed asString? type
      default := ← allowed asString? default
      isVariadic := ← needed asBool? isVariadic
      isByReference := ← needed asBool? isByReference }
  | _ => none

/-- Write a method. -/
def Method.toJson (m : Method) : Json := .obj [
  ("name", .str m.name), ("visibility", .str m.visibility.word),
  ("isStatic", .bool m.isStatic), ("isAbstract", .bool m.isAbstract),
  ("parameters", .arr (m.parameters.map Parameter.toJson)),
  ("returnType", optional m.returnType), ("docComment", optional m.doc)]

/-- Read a method. -/
def Method.ofJson? (j : Json) : Option Method := do
  match ← record ["name", "visibility", "isStatic", "isAbstract", "parameters", "returnType",
      "docComment"] j with
  | [name, visibility, isStatic, isAbstract, parameters, returnType, doc] =>
    some {
      name := ← needed asString? name
      visibility := ← needed (asChoice? Visibility.choices) visibility
      isStatic := ← needed asBool? isStatic
      isAbstract := ← needed asBool? isAbstract
      parameters := ← needed (asList? Parameter.ofJson?) parameters
      returnType := ← allowed asString? returnType
      doc := ← allowed asString? doc }
  | _ => none

/-- Write a property. -/
def Property.toJson (p : Property) : Json := .obj [
  ("name", .str p.name), ("visibility", .str p.visibility.word), ("isStatic", .bool p.isStatic),
  ("type", optional p.type), ("defaultValue", optional p.default),
  ("docComment", optional p.doc)]

/-- Read a property. -/
def Property.ofJson? (j : Json) : Option Property := do
  match ← record ["name", "visibility", "isStatic", "type", "defaultValue", "docComment"] j with
  | [name, visibility, isStatic, type, default, doc] =>
    some {
      name := ← needed asString? name
      visibility := ← needed (asChoice? Visibility.choices) visibility
      isStatic := ← needed asBool? isStatic
      type := ← allowed asString? type
      default := ← allowed asString? default
      doc := ← allowed asString? doc }
  | _ => none

/-- Write a constant. -/
def Constant.toJson (c : Constant) : Json := .obj [
  ("name", .str c.name), ("value", optional c.value), ("visibility", .str c.visibility.word),
  ("docComment", optional c.doc)]

/-- Read a constant. -/
def Constant.ofJson? (j : Json) : Option Constant := do
  match ← record ["name", "value", "visibility", "docComment"] j with
  | [name, value, visibility, doc] =>
    some {
      name := ← needed asString? name
      value := ← allowed asString? value
      visibility := ← needed (asChoice? Visibility.choices) visibility
      doc := ← allowed asString? doc }
  | _ => none

/-- Write a declaration. -/
def Declaration.toJson (d : Declaration) : Json := .obj [
  ("name", .str d.name), ("namespace", .str d.space),
  ("fullyQualifiedName", .str d.qualifiedName), ("kind", .str d.kind.word),
  ("isAbstract", .bool d.isAbstract), ("extendsName", optional d.parent),
  ("implementsNames", strings d.interfaces), ("traitsUsed", strings d.traits),
  ("docComment", optional d.doc), ("methods", .arr (d.methods.map Method.toJson)),
  ("properties", .arr (d.properties.map Property.toJson)),
  ("constants", .arr (d.constants.map Constant.toJson)), ("sourcePath", .str d.path)]

/-- Read a declaration. -/
def Declaration.ofJson? (j : Json) : Option Declaration := do
  match ← record ["name", "namespace", "fullyQualifiedName", "kind", "isAbstract",
      "extendsName", "implementsNames", "traitsUsed", "docComment", "methods", "properties",
      "constants", "sourcePath"] j with
  | [name, space, qualifiedName, kind, isAbstract, parent, interfaces, traits, doc, methods,
      properties, constants, path] =>
    some {
      name := ← needed asString? name
      space := ← needed asString? space
      qualifiedName := ← needed asString? qualifiedName
      kind := ← needed (asChoice? DeclarationKind.choices) kind
      isAbstract := ← needed asBool? isAbstract
      parent := ← allowed asString? parent
      interfaces := ← needed (asList? asString?) interfaces
      traits := ← needed (asList? asString?) traits
      doc := ← allowed asString? doc
      methods := ← needed (asList? Method.ofJson?) methods
      properties := ← needed (asList? Property.ofJson?) properties
      constants := ← needed (asList? Constant.ofJson?) constants
      path := ← needed asString? path }
  | _ => none

/-- Write an event. -/
def EventInfo.toJson (e : EventInfo) : Json := .obj [
  ("name", .str e.name), ("fullyQualifiedName", .str e.qualifiedName),
  ("parameters", strings e.parameters), ("description", optional e.description)]

/-- Read an event. -/
def EventInfo.ofJson? (j : Json) : Option EventInfo := do
  match ← record ["name", "fullyQualifiedName", "parameters", "description"] j with
  | [name, qualifiedName, parameters, description] =>
    some {
      name := ← needed asString? name
      qualifiedName := ← needed asString? qualifiedName
      parameters := ← needed (asList? asString?) parameters
      description := ← allowed asString? description }
  | _ => none

/-- Read a point in time from its text. -/
def Timestamp.ofJson? (j : Json) : Option Timestamp := (asString? j).bind Timestamp.parse?

/-- Write an index. -/
def Index.toJson (i : Index) : Json := .obj [
  ("formatVersion", .str i.version), ("builtAt", .str i.builtAt.text),
  ("sourceCommit", optional i.commit), ("sourceBranch", optional i.branch),
  ("declarations", .arr (i.declarations.map Declaration.toJson)),
  ("namespaceMap", ofDict strings i.namespaceMap),
  ("eventMap", ofDict EventInfo.toJson i.eventMap)]

/-- Read an index of any version. -/
def Index.ofJson? (j : Json) : Option Index := do
  match ← record ["formatVersion", "builtAt", "sourceCommit", "sourceBranch", "declarations",
      "namespaceMap", "eventMap"] j with
  | [version, builtAt, commit, branch, declarations, namespaceMap, eventMap] =>
    some {
      version := ← needed asString? version
      builtAt := ← needed Timestamp.ofJson? builtAt
      commit := ← allowed asString? commit
      branch := ← allowed asString? branch
      declarations := ← needed (asList? Declaration.ofJson?) declarations
      namespaceMap := ← needed (asDict? (asList? asString?)) namespaceMap
      eventMap := ← needed (asDict? EventInfo.ofJson?) eventMap }
  | _ => none

/-- Write a column. -/
def Column.toJson (c : Column) : Json := .obj [
  ("name", .str c.name), ("type", .str c.type), ("nullable", .bool c.nullable),
  ("defaultValue", optional c.default), ("autoIncrement", .bool c.autoIncrement),
  ("comment", optional c.comment)]

/-- Read a column. -/
def Column.ofJson? (j : Json) : Option Column := do
  match ← record ["name", "type", "nullable", "defaultValue", "autoIncrement", "comment"] j with
  | [name, type, nullable, default, autoIncrement, comment] =>
    some {
      name := ← needed asString? name
      type := ← needed asString? type
      nullable := ← needed asBool? nullable
      default := ← allowed asString? default
      autoIncrement := ← needed asBool? autoIncrement
      comment := ← allowed asString? comment }
  | _ => none

/-- Write a key. -/
def Key.toJson (k : Key) : Json := .obj [
  ("name", .str k.name), ("kind", .str k.kind.word), ("columns", strings k.columns)]

/-- Read a key. -/
def Key.ofJson? (j : Json) : Option Key := do
  match ← record ["name", "kind", "columns"] j with
  | [name, kind, columns] =>
    some {
      name := ← needed asString? name
      kind := ← needed (asChoice? KeyKind.choices) kind
      columns := ← needed (asList? asString?) columns }
  | _ => none

/-- Write a table. -/
def Table.toJson (t : Table) : Json := .obj [
  ("qualifiedName", .str t.qualifiedName), ("shortName", .str t.shortName),
  ("columns", .arr (t.columns.map Column.toJson)), ("indexes", .arr (t.keys.map Key.toJson)),
  ("engine", optional t.engine), ("charset", optional t.charset),
  ("comment", optional t.comment)]

/-- Read a table. -/
def Table.ofJson? (j : Json) : Option Table := do
  match ← record ["qualifiedName", "shortName", "columns", "indexes", "engine", "charset",
      "comment"] j with
  | [qualifiedName, shortName, columns, keys, engine, charset, comment] =>
    some {
      qualifiedName := ← needed asString? qualifiedName
      shortName := ← needed asString? shortName
      columns := ← needed (asList? Column.ofJson?) columns
      keys := ← needed (asList? Key.ofJson?) keys
      engine := ← allowed asString? engine
      charset := ← allowed asString? charset
      comment := ← allowed asString? comment }
  | _ => none

/-- Write a schema index. -/
def SchemaIndex.toJson (s : SchemaIndex) : Json := .obj [
  ("tables", .arr (s.tables.map Table.toJson)),
  ("tableMap", ofDict Table.toJson s.byShortName)]

/-- Read a schema index. -/
def SchemaIndex.ofJson? (j : Json) : Option SchemaIndex := do
  match ← record ["tables", "tableMap"] j with
  | [tables, byShortName] =>
    some {
      tables := ← needed (asList? Table.ofJson?) tables
      byShortName := ← needed (asDict? Table.ofJson?) byShortName }
  | _ => none

/-- The text an index is kept as. -/
def Index.archive (i : Index) : String := i.toJson.pretty

/-- The index of a kept text; a text of another version has none. -/
def Index.ofArchive? (text : String) : Option Index := do
  let i ← Index.ofJson? (← Json.parse? text)
  if i.version = formatVersion then some i else none

/-- The text a schema index is kept as. -/
def SchemaIndex.archive (s : SchemaIndex) : String := s.toJson.pretty

/-- The schema index of a kept text. -/
def SchemaIndex.ofArchive? (text : String) : Option SchemaIndex := do
  SchemaIndex.ofJson? (← Json.parse? text)

/-- Write counts. -/
def Stats.toJson (s : Stats) : Json := .obj [
  ("classes", .nat s.classes), ("interfaces", .nat s.interfaces), ("traits", .nat s.traits),
  ("methods", .nat s.methods), ("properties", .nat s.properties),
  ("constants", .nat s.constants), ("namespaces", .nat s.namespaces),
  ("events", .nat s.events), ("tables", .nat s.tables)]

end CodeIndex
