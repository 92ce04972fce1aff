import CodeIndex.Index
import CodeIndex.Query.Events
import CodeIndex.Render.Declaration

/-!
# Events and counts as text
-/

namespace CodeIndex.Render

/-- The lines of an event: its name, its parameters and its summary. -/
def event (e : EventInfo) : String :=
  item (e.qualifiedName ++
    (if e.parameters.isEmpty then "" else "\n  Parameters: " ++ joinWith ", " e.parameters) ++
    optionally (summaryLine e.description) ("\n  " ++ ·))

/-- The answer to a listing of events. -/
def events (listing : EventListing) : String :=
  if listing.total = 0 then "No events indexed."
  else
    trimmedEnd (
      line ("Events: " ++ toString listing.matched ++ " of " ++ toString listing.total) ++
      concat (listing.events.map fun e => line (event e)))

/-- The counts of a snapshot, and where its index came from. -/
def stats (s : Stats) (index : Index) : String :=
  "Index Statistics:\n" ++
    line (item ("Built: " ++ index.builtAt.display)) ++
    optionally index.commit (fun commit => line (item ("Commit: " ++ commit))) ++
    optionally index.branch (fun branch => line (item ("Branch: " ++ branch))) ++
    line (item ("Declarations: " ++ toString s.declarations ++ " (" ++ toString s.classes ++
      " classes, " ++ toString s.interfaces ++ " interfaces, " ++ toString s.traits ++
      " traits)")) ++
    line (item ("Methods: " ++ toString s.methods)) ++
    line (item ("Properties: " ++ toString s.properties)) ++
    line (item ("Constants: " ++ toString s.constants)) ++
    line (item ("Namespaces: " ++ toString s.namespaces)) ++
    line (item ("Events: " ++ toString s.events)) ++
    item ("Tables: " ++ toString s.tables)

end CodeIndex.Render
