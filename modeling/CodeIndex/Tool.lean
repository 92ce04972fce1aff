import CodeIndex.Json.Printer
import CodeIndex.Json.Record
import CodeIndex.Render.Report
import CodeIndex.Render.Tables

/-!
# Tools

Five named queries with JSON arguments and text answers.  The arguments of a call are
first read as a request, which is the only step that can fail; a request is then answered
from a snapshot, and the answer is cut to the budget.

* `call_unknown` : a name that is no tool's is a mistake of the caller.
-/

namespace CodeIndex

/-- The named queries. -/
inductive Tool where
  | lookupClass
  | search
  | listEvents
  | lookupSchema
  | indexStats
  deriving DecidableEq, Repr, Inhabited

/-- The arguments of a call. -/
abbrev Arguments := Dict Json

/-- A call whose arguments are understood.  A search without a limit takes the configured
one. -/
inductive Request where
  | lookup (name : String) (member : Option String)
  | search (query : String) (filter : TypeFilter) (limit : Option Nat)
  | events (filter space : Option String)
  | schema (query : SchemaQuery)
  | stats
  deriving DecidableEq, Repr, Inhabited

/-- What an answer is made from: a snapshot, the settings, and the root that paths are
shown relative to. -/
structure Context where
  snapshot : Snapshot
  config : Config
  sourceRoot : String
  deriving Inhabited

namespace Tool

/-- The tools in the order in which they are listed. -/
def every : List Tool := [.lookupClass, .search, .listEvents, .lookupSchema, .indexStats]

/-- The name of a tool. -/
def name : Tool → String
  | .lookupClass => "lookup_class"
  | .search => "search"
  | .listEvents => "list_events"
  | .lookupSchema => "lookup_schema"
  | .indexStats => "index_stats"

/-- What a tool does. -/
def description : Tool → String
  | .lookupClass => "Look up a class, interface or trait by name, optionally down to one method"
  | .search => "Search declarations and members by substring"
  | .listEvents => "List event classes and their constructor parameters"
  | .lookupSchema => "Show database table definitions"
  | .indexStats => "Summary counts for the current index"

/-- The schema of one argument. -/
def argument (type : String) (more : List (String × Json)) : Json :=
  .obj (("type", .str type) :: more)

/-- The schema of one described argument. -/
def described (type text : String) : Json := argument type [("description", .str text)]

/-- The schema of a tool's arguments. -/
def arguments (properties : List (String × Json)) (required : List String) : Json :=
  .obj ([("type", .str "object"), ("properties", .obj properties)] ++
    if required.isEmpty then [] else [("required", .strings required)])

/-- The arguments that a tool takes. -/
def inputSchema : Tool → Json
  | .lookupClass => arguments [
      ("name", described "string" "Simple or fully-qualified name"),
      ("member", described "string" "Method name")] ["name"]
  | .search => arguments [
      ("query", described "string" "Search text"),
      ("type", argument "string" [
        ("enum", .strings (TypeFilter.every.map TypeFilter.word)), ("default", .str "all")]),
      ("limit", argument "integer" [
        ("default", .nat 10), ("description", .str "Maximum rows shown")])] ["query"]
  | .listEvents => arguments [
      ("filter", described "string" "Match name, class or description"),
      ("namespace", described "string" "Match the event class namespace")] []
  | .lookupSchema => arguments [
      ("table", described "string" "Table name, with or without prefix"),
      ("component", described "string" "Component whose tables to show"),
      ("list_all", described "boolean" "List every table")] []
  | .indexStats => arguments [] []

/-- A tool as it is listed. -/
def toJson (t : Tool) : Json := .obj [
  ("name", .str t.name), ("description", .str t.description), ("input_schema", t.inputSchema)]

end Tool

namespace Request

/-- A text argument that is there and not blank, without outer blanks. -/
def text? (args : Arguments) (name : String) : Option String :=
  match args.get? name with
  | some (.str s) => let bare := trimmed s; if bare.isEmpty then none else some bare
  | _ => none

/-- A text argument that must be there. -/
def neededText (args : Arguments) (name : String) : Except QueryError String :=
  match text? args name with
  | some s => .ok s
  | none => .error (.missingArgument name)

/-- The value of a positive integer that fits a word. -/
def positive? : Json → Option Nat
  | .number (.natural n) => if 0 < n ∧ n < Json.wordLimit then some n else none
  | _ => none

/-- A positive number that may be missing or null. -/
def count? (args : Arguments) (name : String) : Except QueryError (Option Nat) :=
  match args.get? name with
  | none => .ok none
  | some .null => .ok none
  | some value =>
    match positive? value with
    | some n => .ok (some n)
    | none => .error (.invalidArgument name
        ("expected a positive integer, got " ++ value.canonical.compact))

/-- Is a flag set? -/
def flag (args : Arguments) (name : String) : Bool :=
  match args.get? name with
  | some (.bool b) => b
  | _ => false

/-- Read the arguments of a search. -/
def searchOf (args : Arguments) : Except QueryError Request := do
  let query ← neededText args "query"
  let filter ← TypeFilter.parse ((text? args "type").getD "all")
  let limit ← count? args "limit"
  .ok (.search query filter limit)

/-- Read the arguments of a schema query. -/
def schemaOf (args : Arguments) : Except QueryError Request :=
  match text? args "table", text? args "component" with
  | some table, _ => .ok (.schema (.table table))
  | none, some component => .ok (.schema (.component component))
  | none, none =>
    if flag args "list_all" then .ok (.schema .all)
    else .error (.missingArgument "table, component or list_all")

/-- Read the arguments of a call. -/
def ofArguments (tool : Tool) (args : Arguments) : Except QueryError Request :=
  match tool with
  | .lookupClass => (neededText args "name").map fun name => .lookup name (text? args "member")
  | .search => searchOf args
  | .listEvents => .ok (.events (text? args "filter") (text? args "namespace"))
  | .lookupSchema => schemaOf args
  | .indexStats => .ok .stats

/-- The answer when nothing has been indexed. -/
def emptyIndex : String := "The index is empty. Run `phpindex build` first."

/-- The answer when no table has been indexed. -/
def emptySchema : String :=
  "No schema has been indexed. Check `project.schema_root` and run `phpindex build`."

/-- An answer over the declarations, when there are any. -/
def overDeclarations (ctx : Context) (answer : List Declaration → String) : String :=
  let ds := ctx.snapshot.index.declarations
  if ds.isEmpty then emptyIndex else answer ds

/-- Answer a request in full. -/
def answer (ctx : Context) : Request → String
  | .lookup name member => overDeclarations ctx fun ds =>
      Render.lookup (Query.lookup ctx.config.query ds name member) name ctx.sourceRoot
  | .search query filter limit => overDeclarations ctx fun ds =>
      Render.search (Query.search ds query filter (limit.getD ctx.config.query.defaultLimit))
        query ctx.sourceRoot
  | .events filter space => overDeclarations ctx fun _ =>
      Render.events (Query.listEvents ctx.snapshot.index.eventMap filter space)
  | .schema query =>
    if ctx.snapshot.schema.tables.isEmpty then emptySchema
    else Render.schema (Query.lookupSchema ctx.config ctx.snapshot.schema query) (query = .all)
  | .stats => Render.stats ctx.snapshot.stats ctx.snapshot.index

end Request

/-- The tool of a name. -/
def Tool.ofName? (name : String) : Option Tool := Tool.every.find? fun t => t.name == name

/-- Read a call as a request. -/
def Tool.request (name : String) (args : Arguments) : Except QueryError Request :=
  match Tool.ofName? name with
  | some tool => Request.ofArguments tool args
  | none => .error (.unknownTool name)

/-- Call a tool by its name; the answer is cut to the budget. -/
def Tool.call (ctx : Context) (name : String) (args : Arguments) : Except QueryError String :=
  (Tool.request name args).map fun request =>
    Render.truncate (request.answer ctx) ctx.config.output.maxChars

/-- A name that is no tool's is a mistake of the caller. -/
theorem Tool.call_unknown {name : String} (h : Tool.ofName? name = none) (ctx : Context)
    (args : Arguments) : Tool.call ctx name args = .error (.unknownTool name) := by
  simp [call, request, h, Except.map]

end CodeIndex
