import CodeIndex.Query.Error
import CodeIndex.Query.Hint
import CodeIndex.Query.Lookup

/-!
# Searching

Every declaration and member whose name or doc block contains the query, ranked: names
equal to the query, names that start with it, and the rest, shorter names first.

* `search_total` : the total does not depend on the limit.
-/

namespace CodeIndex

/-- What a search row shows. -/
inductive HitKind where
  | cls
  | method
  | constant
  | property
  deriving DecidableEq, Repr, Inhabited

/-- The word for a kind of row. -/
def HitKind.word : HitKind → String
  | .cls => "class"
  | .method => "method"
  | .constant => "constant"
  | .property => "property"

/-- Which rows a search looks at. -/
inductive TypeFilter where
  | all
  | only (kind : HitKind)
  deriving DecidableEq, Repr, Inhabited

namespace TypeFilter

/-- The word for a filter. -/
def word : TypeFilter → String
  | .all => "all"
  | .only kind => kind.word

/-- The filters. -/
def every : List TypeFilter :=
  [.all, .only .cls, .only .method, .only .constant, .only .property]

/-- Does the filter let the kind through? -/
def allows : TypeFilter → HitKind → Bool
  | .all, _ => true
  | .only kind, k => kind == k

/-- The filter a word names, in any ASCII letter case; the empty word names all. -/
def parse (value : String) : Except QueryError TypeFilter :=
  if value.isEmpty then .ok .all
  else
    match every.find? fun f => sameName f.word value with
    | some filter => .ok filter
    | none => .error (.invalidTypeFilter value)

end TypeFilter

/-- A search row: the element found and the declaration it belongs to. -/
structure SearchHit where
  kind : HitKind
  name : String
  declaration : Declaration
  detail : Option String
  deriving DecidableEq, Repr, Inhabited

/-- What a search gives. -/
structure SearchResults where
  hits : List SearchHit
  total : Nat
  suggestions : List String
  deriving DecidableEq, Repr, Inhabited

namespace Query

/-- Does an optional text contain the needle? -/
def holdsIn (needle : String) (text : Option String) : Bool := (text.map (holds needle)).getD false

/-- The row of a declaration that matches by name, qualified name or doc block. -/
def classRows (needle : String) (d : Declaration) : List SearchHit :=
  if holds needle d.name || holds needle d.qualifiedName || holdsIn needle d.doc then
    [⟨.cls, d.name, d, some d.kind.word⟩]
  else []

/-- The rows of the methods that match by name or doc block. -/
def methodRows (needle : String) (d : Declaration) : List SearchHit :=
  (d.methods.filter fun m => holds needle m.name || holdsIn needle m.doc).map fun m =>
    ⟨.method, m.name, d, some m.signature⟩

/-- The rows of the constants that match by name. -/
def constantRows (needle : String) (d : Declaration) : List SearchHit :=
  (d.constants.filter fun c => holds needle c.name).map fun c => ⟨.constant, c.name, d, c.value⟩

/-- The rows of the properties that match by name. -/
def propertyRows (needle : String) (d : Declaration) : List SearchHit :=
  (d.properties.filter fun p => holds needle p.name).map fun p => ⟨.property, p.name, d, p.type⟩

/-- Every matching row of a declaration, in order. -/
def rows (needle : String) (d : Declaration) : List SearchHit :=
  classRows needle d ++ methodRows needle d ++ constantRows needle d ++ propertyRows needle d

/-- The matching rows of the kinds that a filter lets through, in index order. -/
def matchingRows (ds : List Declaration) (needle : String) (filter : TypeFilter) :
    List SearchHit :=
  (ds.flatMap (rows needle)).filter fun hit => filter.allows hit.kind

/-- How well a row fits: its name is the needle, starts with it, or neither; then the
length of the name in bytes. -/
def rank (needle : String) (hit : SearchHit) : Nat × Nat :=
  let name := lowered hit.name
  (if name = needle then 0
    else if Text.startsWith needle.toList name.toList then 1
    else 2,
   hit.name.utf8ByteSize)

/-- Does the first row come no later than the second? -/
def rankLe (needle : String) (a b : SearchHit) : Bool :=
  let x := rank needle a
  let y := rank needle b
  x.1 < y.1 || (x.1 == y.1 && x.2 ≤ y.2)

/-- Search for a text. -/
def search (ds : List Declaration) (query : String) (filter : TypeFilter) (limit : Nat) :
    SearchResults :=
  let needle := lowered (trimmed query)
  let ranked := (matchingRows ds needle filter).mergeSort (rankLe needle)
  { hits := ranked.take limit
    total := ranked.length
    suggestions := if ranked.isEmpty then hints query else [] }

/-- The total does not depend on the limit. -/
theorem search_total (ds : List Declaration) (query : String) (filter : TypeFilter)
    (limit limit' : Nat) :
    (search ds query filter limit).total = (search ds query filter limit').total := rfl

end Query

end CodeIndex
