import Mathlib.Data.List.Forall2
import CodeIndex.Tool
import CodeIndex.Proofs.Path.Relative

/-!
# Answers and the place of the source tree

Where a source tree lies is seen in the paths of its declarations and in the root they are shown
relative to, and in nothing else.  Queries choose, count and rank without looking at a path, and a
page shows no more of a path than what is left of it below the root.  So a declaration is as good
as what is shown of it: queries commute with the reduction of declarations to what is shown of
them, and pages depend on the reduced declarations only.

* `shownPath_of_extends` : what is shown of a path below the root.
* `Query.lookup_shown`, `Query.search_shown` : queries commute with the reduction.
* `Render.lookup_congr`, `Render.search_congr` : pages factor through it.
* `Tool.call_moved` : a call answers the same for a tree in another place.
-/

namespace CodeIndex

/-! ## What is shown -/

/-- A declaration with what is shown of its path in place of the path. -/
def Declaration.shown (root : String) (d : Declaration) : Declaration :=
  { d with path := Render.shownPath d.path root }

/-- A look-up outcome with its declaration as shown. -/
def LookupOutcome.shown (root : String) : LookupOutcome → LookupOutcome
  | .found declaration member => .found (declaration.shown root) member
  | .ambiguous candidates total => .ambiguous candidates total
  | .notFound suggestions => .notFound suggestions

/-- A search row with its declaration as shown. -/
def SearchHit.shown (root : String) (hit : SearchHit) : SearchHit :=
  { hit with declaration := hit.declaration.shown root }

/-- Search results with their rows as shown. -/
def SearchResults.shown (root : String) (results : SearchResults) : SearchResults :=
  { results with hits := results.hits.map (SearchHit.shown root) }

/-- Of a path below the root, the relative path is shown, whatever the root. -/
theorem shownPath_of_extends {root p path : String} (hroot : root ≠ "")
    (hp : Path.isAbsolute p = false) (h : Path.Extends root p path) :
    Render.shownPath path root = String.ofList (Text.replaceChar '\\' '/'
      (Text.join ['/'] (Path.trimTrivial (Text.splitAt '/' p.toList)))) := by
  rw [Render.shownPath, Path.relativeTo?_of_extends hroot hp h]
  simp only [String.toList_ofList]

/-! ## Queries do not look at paths -/

namespace Query

variable (root : String) (ds : List Declaration)

/-- A selection that does not look at paths. -/
theorem filter_map_shown {p : Declaration → Bool} (h : ∀ d, p (d.shown root) = p d) :
    (ds.map (Declaration.shown root)).filter p
      = (ds.filter p).map (Declaration.shown root) := by
  have hblind : p ∘ Declaration.shown root = p := funext h
  rw [List.filter_map, hblind]

/-- Partial matches among shown declarations are shown. -/
theorem lookupPartial_shown (settings : QuerySettings) (needle : String)
    (member : Option String) :
    lookupPartial settings (ds.map (Declaration.shown root)) needle member
      = (lookupPartial settings ds needle member).shown root := by
  have hsimilar : similarNames settings (ds.map (Declaration.shown root)) needle
      = similarNames settings ds needle := by
    rw [similarNames, similarNames, List.map_map]
    rfl
  rw [lookupPartial, lookupPartial, filter_map_shown root ds fun _ => rfl, hsimilar]
  match ds.filter (isPartialMatch needle) with
  | [] => rfl
  | [d] => rfl
  | d :: e :: rest =>
      simp only [List.map_cons, LookupOutcome.shown, List.length_cons, List.length_map]
      rw [← List.map_cons, ← List.map_cons, ← List.map_take, List.map_map]
      rfl

/-- A look-up among shown declarations is shown. -/
theorem lookup_shown (settings : QuerySettings) (query : String) (member : Option String) :
    lookup settings (ds.map (Declaration.shown root)) query member
      = (lookup settings ds query member).shown root := by
  rw [lookup, lookup, filter_map_shown root ds fun _ => rfl, filter_map_shown root ds fun _ => rfl,
    lookupPartial_shown]
  generalize ds.filter (fun d => sameName d.qualifiedName (cleanName query)) = full
  generalize ds.filter (fun d => sameName d.name (cleanName query)) = simple
  -- A single match is taken with what is shown of it; none and several lead on alike.
  match full, simple with
  | [_], _ => rfl
  | [], [_] | [], [] | [], _ :: _ :: _ => rfl
  | _ :: _ :: _, [_] | _ :: _ :: _, [] | _ :: _ :: _, _ :: _ :: _ => rfl

/-- The rows of a shown declaration are shown. -/
theorem rows_shown (needle : String) (d : Declaration) :
    rows needle (d.shown root) = (rows needle d).map (SearchHit.shown root) := by
  have hclass : classRows needle (d.shown root)
      = (classRows needle d).map (SearchHit.shown root) := by
    unfold classRows
    rw [apply_ite (List.map (SearchHit.shown root))]
    rfl
  rw [rows, rows, List.map_append, List.map_append, List.map_append, hclass, methodRows, methodRows,
    constantRows, constantRows, propertyRows, propertyRows, List.map_map, List.map_map,
    List.map_map]
  rfl

/-- Matching rows among shown declarations are shown. -/
theorem matchingRows_shown (needle : String) (filter : TypeFilter) :
    matchingRows (ds.map (Declaration.shown root)) needle filter
      = (matchingRows ds needle filter).map (SearchHit.shown root) := by
  have hrows : (ds.map (Declaration.shown root)).flatMap (rows needle)
      = (ds.flatMap (rows needle)).map (SearchHit.shown root) := by
    rw [List.flatMap_map, List.map_flatMap]
    exact congrArg (ds.flatMap ·) (funext (rows_shown root needle))
  rw [matchingRows, matchingRows, hrows, List.filter_map]
  rfl

/-- A search among shown declarations is shown. -/
theorem search_shown (query : String) (filter : TypeFilter) (limit : Nat) :
    search (ds.map (Declaration.shown root)) query filter limit
      = (search ds query filter limit).shown root := by
  have hranked : ∀ needle, (matchingRows (ds.map (Declaration.shown root)) needle filter).mergeSort
        (rankLe needle)
      = ((matchingRows ds needle filter).mergeSort (rankLe needle)).map (SearchHit.shown root) := by
    intro needle
    rw [matchingRows_shown]
    refine (List.map_mergeSort ?_).symm
    exact fun _ _ _ _ => rfl
  simp only [search, hranked, SearchResults.shown, List.map_take, List.length_map,
    List.isEmpty_map]

end Query

/-! ## Pages show no more -/

namespace Render

variable {root root' : String} {d d' : Declaration}

/-- Declarations that are shown alike differ in their paths alone, of which the same is shown. -/
theorem exists_path_of_shown (h : d.shown root = d'.shown root') :
    ∃ path, d' = { d with path } ∧ shownPath d.path root = shownPath path root' := by
  refine ⟨d'.path, ?_, congrArg Declaration.path h⟩
  cases d
  cases d'
  simp only [Declaration.shown, Declaration.mk.injEq] at h ⊢
  simp only [h, and_self]

/-- The page of a declaration shows its path alone. -/
theorem declaration_congr (h : d.shown root = d'.shown root') :
    declaration d root = declaration d' root' := by
  obtain ⟨path, rfl, hpath⟩ := exists_path_of_shown h
  simp only [declaration, hpath]

/-- The page of a method shows the path of its declaration alone. -/
theorem method_congr (h : d.shown root = d'.shown root') (m : Method) :
    method d m root = method d' m root' := by
  obtain ⟨path, rfl, hpath⟩ := exists_path_of_shown h
  simp only [method, hpath]

/-- The page for a missing member does not see the path. -/
theorem missingMember_congr (h : d.shown root = d'.shown root') (member : String)
    (candidates : List String) :
    missingMember d member candidates = missingMember d' member candidates := by
  obtain ⟨path, rfl, -⟩ := exists_path_of_shown h
  rfl

/-- The page of a look-up shows paths alone. -/
theorem lookup_congr {outcome outcome' : LookupOutcome}
    (h : outcome.shown root = outcome'.shown root') (query : String) :
    lookup outcome query root = lookup outcome' query root' := by
  cases outcome with
  | found d member =>
      cases outcome' with
      | found d' member' =>
          obtain ⟨hshown, rfl⟩ := LookupOutcome.found.inj h
          match member with
          | none => exact declaration_congr hshown
          | some (.found m) => exact method_congr hshown m
          | some (.missing text candidates) => exact missingMember_congr hshown text candidates
      | ambiguous => cases h
      | notFound => cases h
  | ambiguous candidates total =>
      cases outcome' with
      | found => cases h
      | ambiguous => cases h; rfl
      | notFound => cases h
  | notFound suggestions =>
      cases outcome' with
      | found => cases h
      | ambiguous => cases h
      | notFound => cases h; rfl

/-- The line of a hit shows its path alone. -/
theorem hitLine_congr {hit hit' : SearchHit} (h : hit.shown root = hit'.shown root') :
    hitLine hit root = hitLine hit' root' := by
  obtain ⟨kind, name, d, detail⟩ := hit
  obtain ⟨kind', name', d', detail'⟩ := hit'
  obtain ⟨rfl, rfl, hshown, rfl⟩ := SearchHit.mk.inj h
  obtain ⟨path, rfl, hpath⟩ := exists_path_of_shown hshown
  simp only [hitLine, hpath]

/-- The page of a search shows paths alone. -/
theorem search_congr {results results' : SearchResults}
    (h : results.shown root = results'.shown root') (query : String) :
    search results query root = search results' query root' := by
  obtain ⟨hits, total, suggestions⟩ := results
  obtain ⟨hits', total', suggestions'⟩ := results'
  obtain ⟨hhits, rfl, rfl⟩ := SearchResults.mk.inj h
  have hlength := congrArg List.length hhits
  rw [List.length_map, List.length_map] at hlength
  have hlines : hits.map (fun hit => line (hitLine hit root))
      = hits'.map fun hit => line (hitLine hit root') := by
    refine List.ext_getElem (by simpa using hlength) ?_
    intro i hi hi'
    rw [List.length_map] at hi hi'
    have hhit := congrArg (·[i]?) hhits
    simp only [List.getElem?_map, List.getElem?_eq_getElem hi, List.getElem?_eq_getElem hi',
      Option.map_some, Option.some.injEq] at hhit
    rw [List.getElem_map, List.getElem_map, hitLine_congr hhit]
  simp only [search, hlength, hlines]

end Render

/-! ## Moving a tree -/

/-- The same declaration in two trees: its paths are one relative path below either root, and all
else is the same. -/
structure Declaration.Moved (root root' : String) (d d' : Declaration) : Prop where
  path : ∃ p, Path.isAbsolute p = false ∧ Path.Extends root p d.path ∧
    Path.Extends root' p d'.path
  rest : d' = { d with path := d'.path }

/-- The same snapshot of two trees. -/
structure Snapshot.Moved (root root' : String) (s s' : Snapshot) : Prop where
  declarations : List.Forall₂ (Declaration.Moved root root') s.index.declarations
    s'.index.declarations
  rest : s' = { s with index := { s.index with declarations := s'.index.declarations } }

/-- A declaration that is moved with its root is shown alike. -/
theorem Declaration.Moved.shown_eq {root root' : String} (hroot : root ≠ "") (hroot' : root' ≠ "")
    {d d' : Declaration} (h : d.Moved root root' d') : d.shown root = d'.shown root' := by
  obtain ⟨p, hp, hpath, hpath'⟩ := h.path
  rw [h.rest, shown, shown, shownPath_of_extends hroot hp hpath, shownPath_of_extends hroot' hp hpath']

/-- Declarations that are moved with their root are shown alike. -/
theorem map_shown_of_moved {root root' : String} (hroot : root ≠ "") (hroot' : root' ≠ "")
    {ds ds' : List Declaration} (h : List.Forall₂ (Declaration.Moved root root') ds ds') :
    ds.map (Declaration.shown root) = ds'.map (Declaration.shown root') := by
  induction h with
  | nil => rfl
  | cons hmoved _ ih => rw [List.map_cons, List.map_cons, hmoved.shown_eq hroot hroot', ih]

section Answers

variable {root root' : String} {s : Snapshot} {ds' : List Declaration}

/-- The snapshot with other declarations. -/
def Snapshot.withDeclarations (s : Snapshot) (ds : List Declaration) : Snapshot :=
  { s with index := { s.index with declarations := ds } }

/-- Statistics do not see paths. -/
theorem Snapshot.stats_congr (h : s.index.declarations.map (Declaration.shown root)
      = ds'.map (Declaration.shown root')) : s.stats = (s.withDeclarations ds').stats := by
  have hkind : ∀ kind, Index.countKind kind s.index.declarations = Index.countKind kind ds' := by
    intro kind
    have hcount := congrArg (Index.countKind kind) h
    rwa [Index.countKind, Index.countKind, List.countP_map, List.countP_map] at hcount
  have htotal : ∀ count : Declaration → Nat, (∀ root d, count (d.shown root) = count d) →
      Index.total count s.index.declarations = Index.total count ds' := by
    intro count hblind
    have hsum := congrArg (Index.total count) h
    rw [Index.total, Index.total, List.map_map, List.map_map] at hsum
    have hcount : ∀ root, count ∘ Declaration.shown root = count := fun root => funext (hblind root)
    rwa [hcount, hcount] at hsum
  simp only [stats, Index.stats, withDeclarations, hkind,
    htotal (fun d => d.methods.length) fun _ _ => rfl,
    htotal (fun d => d.properties.length) fun _ _ => rfl,
    htotal (fun d => d.constants.length) fun _ _ => rfl]

/-- An answer over the declarations, or the advice that there are none. -/
theorem Request.overDeclarations_congr (h : s.index.declarations.map (Declaration.shown root)
      = ds'.map (Declaration.shown root')) {config : Config}
    {answer answer' : List Declaration → String}
    (hanswer : answer s.index.declarations = answer' ds') :
    overDeclarations ⟨s, config, root⟩ answer
      = overDeclarations ⟨s.withDeclarations ds', config, root'⟩ answer' := by
  have hempty : s.index.declarations.isEmpty = ds'.isEmpty := by
    rw [← List.isEmpty_map (f := Declaration.shown root), h, List.isEmpty_map]
  show (if s.index.declarations.isEmpty then emptyIndex else answer s.index.declarations)
    = if ds'.isEmpty then emptyIndex else answer' ds'
  rw [hempty, hanswer]

/-- A request is answered alike over declarations that are shown alike. -/
theorem Request.answer_congr (h : s.index.declarations.map (Declaration.shown root)
      = ds'.map (Declaration.shown root')) (config : Config) (request : Request) :
    request.answer ⟨s, config, root⟩ = request.answer ⟨s.withDeclarations ds', config, root'⟩ := by
  cases request with
  | lookup name member =>
      have houtcome := Query.lookup_shown root s.index.declarations config.query name member
      rw [h, Query.lookup_shown] at houtcome
      rw [answer, answer]
      refine overDeclarations_congr h ?_
      exact Render.lookup_congr houtcome.symm name
  | search query filter limit =>
      have hresults := Query.search_shown root s.index.declarations query filter
        (limit.getD config.query.defaultLimit)
      rw [h, Query.search_shown] at hresults
      rw [answer, answer]
      refine overDeclarations_congr h ?_
      exact Render.search_congr hresults.symm query
  | events filter space =>
      rw [answer, answer]
      refine overDeclarations_congr h ?_
      rfl
  | schema query => rfl
  | stats =>
      simp only [answer, Snapshot.stats_congr h]
      rfl

end Answers

/-- **Answers do not depend on where the source tree lies.**  Over two snapshots of one tree in
two places, each with its root to show paths relative to, every call of a tool gives the same
answer, or the same mistake. -/
theorem Tool.call_moved {root root' : String} (hroot : root ≠ "") (hroot' : root' ≠ "")
    {s s' : Snapshot} (h : s.Moved root root' s') (config : Config) (name : String)
    (args : Arguments) :
    Tool.call ⟨s, config, root⟩ name args = Tool.call ⟨s', config, root'⟩ name args := by
  have hshown := map_shown_of_moved hroot hroot' h.declarations
  rw [h.rest, Tool.call, Tool.call]
  refine congrArg (fun answer => (Tool.request name args).map answer) (funext fun request => ?_)
  exact congrArg (Render.truncate · config.output.maxChars)
    (Request.answer_congr hshown config request)

/-- A snapshot of a tree with one class in it. -/
def oneClass (path : String) : Snapshot where
  index := {
    builtAt := ⟨⟨2024, 1, 2⟩, 3, 4, 0⟩
    declarations := [
      { name := "Widget", space := "App\\Ui", qualifiedName := "App\\Ui\\Widget", path }] }
  schema := SchemaIndex.empty

/-- A root that ends in a slash, and one that is the working directory said twice. -/
theorem Tool.call_moved_dots :
    (oneClass "/srv/src/Ui/Widget.php").Moved "/srv/src/" "./." (oneClass "././Ui/Widget.php") ∧
      Tool.call ⟨oneClass "/srv/src/Ui/Widget.php", {}, "/srv/src/"⟩ "lookup_class"
          (Dict.ofList [("name", .str "widget")])
        = .ok "## class App\\Ui\\Widget\nFile: Ui/Widget.php" := by
  have hmoved : (oneClass "/srv/src/Ui/Widget.php").Moved "/srv/src/" "./."
      (oneClass "././Ui/Widget.php") := by
    refine ⟨.cons ⟨⟨"Ui/Widget.php", ?_, .inl ?_, .inl ?_⟩, rfl⟩ .nil, rfl⟩ <;> decide
  refine ⟨hmoved, ?_⟩
  rw [Tool.call_moved (by decide) (by decide) hmoved]
  decide

end CodeIndex
