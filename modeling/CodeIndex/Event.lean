import CodeIndex.Declaration
import CodeIndex.Dict

/-!
# Events

An event is a declaration of an event namespace that is named, or extends, like one.
It is described by the parameters of its constructor and its doc block.
-/

namespace CodeIndex

/-- An event and how it is constructed. -/
structure EventInfo where
  name : String
  qualifiedName : String
  parameters : List String := []
  description : Option String := none
  deriving DecidableEq, Repr, Inhabited

namespace Event

/-- Machinery that lives in event namespaces and is no event itself. -/
def machinery : List String := [
  "EventManager", "EventManagerInterface", "EventListener", "EventListenerInterface",
  "EventSubscriber", "EventSubscriberInterface", "EventDispatcher",
  "EventDispatcherInterface", "EventAwareInterface", "EventAwareTrait"]

/-- Is some segment of the namespace exactly `Event`? -/
def inEventNamespace (space : String) : Bool :=
  (Text.splitAt '\\' space.toList).any (· == "Event".toList)

/-- Does the text end with `Event`? -/
def endsInEvent (s : String) : Bool := Text.endsWith "Event".toList s.toList

/-- Does the parent's name mark an event? -/
def isEventParent (parent : String) : Bool :=
  endsInEvent parent || occursIn "AbstractEvent" parent

/-- Is the declaration an event? -/
def isEvent (d : Declaration) : Bool :=
  inEventNamespace d.space && !machinery.contains d.name &&
    (endsInEvent d.name || (d.parent.map isEventParent).getD false)

/-- A parameter as `<type> $<name> = <default>`; markers are left out. -/
def parameterText (p : Parameter) : String :=
  optionally p.type (· ++ " ") ++ "$" ++ p.name ++ optionally p.default (" = " ++ ·)

/-- Describe a declaration as an event, by its first constructor and its doc block. -/
def info (d : Declaration) : EventInfo where
  name := d.name
  qualifiedName := d.qualifiedName
  parameters := ((d.constructor?.map Method.parameters).getD []).map parameterText
  description := d.doc

/-- The events among the declarations by qualified name; a later one replaces an earlier
one of its name. -/
def mapOf (ds : List Declaration) : Dict EventInfo :=
  Dict.ofList ((ds.filter isEvent).map fun d => (d.qualifiedName, info d))

end Event

end CodeIndex
