import CodeIndex.Query.Search
import CodeIndex.Render.Doc
import CodeIndex.Render.Shown

/-!
# Declarations as text

The page of a declaration or of one method, and the answers to look-ups and searches.
-/

namespace CodeIndex.Render

/-- A line with its end. -/
def line (text : String) : String := text ++ "\n"

/-- The concatenation of parts. -/
def concat (parts : List String) : String := parts.foldl (· ++ ·) ""

/-- A text without trailing blanks. -/
def trimmedEnd (s : String) : String := String.ofList (Text.trimEnd s.toList)

/-- A list item in the style of a report. -/
def item (text : String) : String := "- " ++ text

/-- A section with its title, when it has lines. -/
def titled (title : String) (lines : List String) : String :=
  if lines.isEmpty then "" else line ("\n### " ++ title) ++ concat (lines.map line)

/-- The line of a constant. -/
def constantLine (c : Constant) : String :=
  item (c.visibility.word ++ " const " ++ c.name ++ optionally c.value (" = " ++ ·))

/-- The line of a property. -/
def propertyLine (p : Property) : String :=
  item (p.visibility.word ++ (if p.isStatic then " static" else "") ++
    optionally p.type (" " ++ ·) ++ " $" ++ p.name ++ optionally p.default (" = " ++ ·))

/-- The lines of a method: its signature and the summary of its doc block. -/
def methodLine (m : Method) : String :=
  item (m.signature ++ optionally (summaryLine m.doc) ("\n  " ++ ·))

/-- A line of names after a label, when there are names. -/
def namesLine (label : String) (names : List String) : String :=
  if names.isEmpty then "" else line (label ++ ": " ++ joinWith ", " names)

/-- The page of a declaration. -/
def declaration (d : Declaration) (root : String) : String :=
  let kind := (if d.isAbstract then "abstract " else "") ++ d.kind.word
  trimmedEnd (
    line ("## " ++ kind ++ " " ++ d.qualifiedName) ++
    line ("File: " ++ shownPath d.path root) ++
    optionally d.parent (fun parent => line ("Extends: " ++ parent)) ++
    namesLine "Implements" d.interfaces ++
    namesLine "Uses" d.traits ++
    optionally d.doc (fun doc => line ("\n" ++ cleanDoc doc)) ++
    titled "Constants" (d.constants.map constantLine) ++
    titled "Properties" (d.properties.map propertyLine) ++
    titled "Methods" (d.methods.map methodLine))

/-- The page of a method. -/
def method (d : Declaration) (m : Method) (root : String) : String :=
  "## " ++ d.qualifiedName ++ "::" ++ m.name ++ "\nFile: " ++ shownPath d.path root ++ "\n\n" ++
    m.signature ++ optionally m.doc (fun doc => "\n\n" ++ cleanDoc doc)

/-- The answer when a declaration lacks the member asked for. -/
def missingMember (d : Declaration) (member : String) (candidates : List String) : String :=
  let names := d.methods.map Method.name
  d.kind.word ++ " " ++ d.qualifiedName ++ " was found, but it has no method '" ++ member ++ "'." ++
    (if !candidates.isEmpty then "\nSimilar methods: " ++ joinWith ", " candidates
      else if !names.isEmpty then "\nAvailable methods: " ++ joinWith ", " names
      else "")

/-- The answer when several declarations match. -/
def ambiguous (query : String) (candidates : List String) (total : Nat) : String :=
  "'" ++ query ++ "' matches " ++ toString total ++ " declarations:\n" ++
    concat (candidates.map fun name => line (item name)) ++
    (if candidates.length < total then
      line ("... and " ++ toString (total - candidates.length) ++ " more") else "") ++
    "Use a fully-qualified name to pick one."

/-- The answer when no declaration matches. -/
def notFound (query : String) (suggestions : List String) : String :=
  "No class, interface or trait matches '" ++ query ++ "'." ++
    (if suggestions.isEmpty then
      "\nTry the search command, or rebuild the index if the source changed."
    else "\nDid you mean:" ++ concat (suggestions.map fun name => "\n" ++ item name))

/-- The answer to a look-up. -/
def lookup (outcome : LookupOutcome) (query root : String) : String :=
  match outcome with
  | .found d none => declaration d root
  | .found d (some (.found m)) => method d m root
  | .found d (some (.missing member candidates)) => missingMember d member candidates
  | .ambiguous candidates total => ambiguous query candidates total
  | .notFound suggestions => notFound query suggestions

/-- The line of a search row. -/
def hitLine (hit : SearchHit) (root : String) : String :=
  let owner := hit.declaration.qualifiedName
  let label := if hit.kind = .cls then owner else owner ++ "::" ++ hit.name
  item ("[" ++ hit.kind.word ++ "] " ++ label ++ optionally hit.detail (fun d => " (" ++ d ++ ")") ++
    " " ++ shownPath hit.declaration.path root)

/-- The answer to a search. -/
def search (results : SearchResults) (query root : String) : String :=
  if results.total = 0 then
    "No results for '" ++ query ++ "'." ++
      (if results.suggestions.isEmpty then ""
      else "\nSuggestions:" ++ concat (results.suggestions.map fun s => "\n" ++ item s))
  else
    trimmedEnd (
      line ("Found " ++ toString results.total ++ " results for '" ++ query ++ "' (showing " ++
        toString results.hits.length ++ "):") ++
      concat (results.hits.map fun hit => line (hitLine hit root)))

end CodeIndex.Render
