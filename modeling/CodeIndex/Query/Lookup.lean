import CodeIndex.Config
import CodeIndex.Declaration
import CodeIndex.Query.Nearest

/-!
# Looking up a declaration

A name is looked up as a qualified name, then as a simple name, then as a part of either.
A single match is taken; several are listed; with none, the nearest names are suggested.
-/

namespace CodeIndex

/-- What became of the member asked for. -/
inductive MemberOutcome where
  | found (method : Method)
  | missing (member : String) (candidates : List String)
  deriving DecidableEq, Repr, Inhabited

/-- What a look-up gives. -/
inductive LookupOutcome where
  | found (declaration : Declaration) (member : Option MemberOutcome)
  | ambiguous (candidates : List String) (total : Nat)
  | notFound (suggestions : List String)
  deriving DecidableEq, Repr, Inhabited

namespace Query

open Text

/-- The name a query asks for: without outer blanks and leading backslashes. -/
def cleanName (query : String) : String :=
  String.ofList ((trim query.toList).dropWhile (· == '\\'))

/-- Does the text contain the lower-case needle when lower-cased? -/
def holds (needle text : String) : Bool := occursIn needle (lowered text)

/-- Does the needle occur in the simple or the qualified name? -/
def isPartialMatch (needle : String) (d : Declaration) : Bool :=
  holds needle d.name || holds needle d.qualifiedName

/-- The method of a declaration that a member names, or the methods that contain it. -/
def resolveMember (d : Declaration) (member : String) : MemberOutcome :=
  match d.method? member with
  | some method => .found method
  | none =>
    .missing member ((d.methods.map Method.name).filter (holds (lowered member)))

/-- The member asked for, if it is not blank. -/
def memberOf (d : Declaration) (member : Option String) : Option MemberOutcome :=
  match member with
  | none => none
  | some text =>
    let name := trimmed text
    if name.isEmpty then none else some (resolveMember d name)

/-- The qualified names whose simple name is near a query that matches nothing. -/
def similarNames (settings : QuerySettings) (ds : List Declaration) (needle : String) :
    List String :=
  nearest needle settings.maxEditDistance settings.maxSuggestions
    (ds.map fun d => (d.name, d.qualifiedName))

/-- Decide among the declarations that match in part. -/
def lookupPartial (settings : QuerySettings) (ds : List Declaration) (needle : String)
    (member : Option String) : LookupOutcome :=
  match ds.filter (isPartialMatch needle) with
  | [] => .notFound (similarNames settings ds needle)
  | [d] => .found d (memberOf d member)
  | found =>
    .ambiguous ((found.take settings.maxAmbiguous).map Declaration.qualifiedName) found.length

/-- Look up a class, interface or trait by name, down to a method if one is asked for. -/
def lookup (settings : QuerySettings) (ds : List Declaration) (query : String)
    (member : Option String) : LookupOutcome :=
  let name := cleanName query
  match ds.filter fun d => sameName d.qualifiedName name with
  | [d] => .found d (memberOf d member)
  | _ =>
    match ds.filter fun d => sameName d.name name with
    | [d] => .found d (memberOf d member)
    | _ => lookupPartial settings ds (lowered name) member

end Query

end CodeIndex
