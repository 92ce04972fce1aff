import CodeIndex.Event
import CodeIndex.Query.Lookup

/-!
# Listing events

The events of an index in the order of their qualified names, those that pass a text
filter and a namespace filter.
-/

namespace CodeIndex

/-- What a listing gives: the events that pass, and the number of all. -/
structure EventListing where
  events : List EventInfo
  total : Nat
  deriving DecidableEq, Repr, Inhabited

/-- The number of events that pass. -/
def EventListing.matched (listing : EventListing) : Nat := listing.events.length

namespace Query

/-- A filter that is there and not empty. -/
def activeFilter (text : Option String) : Option String :=
  match text with
  | some s => if s.isEmpty then none else some s
  | none => none

/-- Does an event pass the text filter: name, qualified name or description? -/
def passesText (filter : Option String) (e : EventInfo) : Bool :=
  match filter with
  | none => true
  | some f =>
    holds f e.name || holds f e.qualifiedName || ((e.description.map (holds f)).getD false)

/-- Does an event pass the namespace filter? -/
def passesSpace (filter : Option String) (e : EventInfo) : Bool :=
  match filter with
  | none => true
  | some f => holds f e.qualifiedName

/-- A namespace filter without leading backslashes. -/
def spaceFilter (text : String) : String :=
  lowered (String.ofList (text.toList.dropWhile (· == '\\')))

/-- List the events that pass both filters. -/
def listEvents (events : Dict EventInfo) (filter space : Option String) : EventListing :=
  let filter := activeFilter (filter.map lowered)
  let space := activeFilter (space.map spaceFilter)
  { events := events.values.filter fun e => passesText filter e && passesSpace space e
    total := events.size }

end Query

end CodeIndex
