import CodeIndex.Index
import CodeIndex.Query.Events
import CodeIndex.Query.Search
import CodeIndex.Proofs.Text.LetterCase

/-!
# Queries in another letter case

Names are compared up to the case of ASCII letters, and all else a query does goes through its full
lower-case form: what it is searched for in, what its edit distance is taken to, which names rank
first and which topics it mentions.  Neither sees the case of an ASCII letter, so queries that
differ in it alone have the same answers.  Only the text of a member that was not found comes back
as it was written.

* `cleanName_congr` : such queries ask for the same name.
* `lookup_congr`, `search_congr`, `listEvents_congr` : the three operations.
* `answers_congr` : all of them over one snapshot.
-/

namespace CodeIndex

/-! ## The echo of a member -/

/-- A member outcome without the echo of the text that was asked for. -/
def MemberOutcome.unechoed : MemberOutcome → MemberOutcome
  | .found method => .found method
  | .missing _ candidates => .missing "" candidates

/-- A look-up without the echo of the member that was asked for. -/
def LookupOutcome.unechoed : LookupOutcome → LookupOutcome
  | .found declaration member => .found declaration (member.map MemberOutcome.unechoed)
  | .ambiguous candidates total => .ambiguous candidates total
  | .notFound suggestions => .notFound suggestions

/-- Two arguments of a query that are both absent, or are the same name. -/
abbrev SameArgument : Option String → Option String → Prop :=
  Option.Rel fun text text' => sameName text text' = true

namespace Query

open Text

variable {query query' : String} {member member' : Option String}

/-! ## Look-ups -/

/-- Queries that differ in the case of ASCII letters ask for the same name. -/
theorem cleanName_congr (h : sameName query query' = true) :
    sameName (cleanName query) (cleanName query') = true := by
  rw [sameName_iff, cleanName, cleanName, String.toList_ofList, String.toList_ofList,
    ← dropWhile_map_asciiLower beq_backslash_asciiLower,
    ← dropWhile_map_asciiLower beq_backslash_asciiLower, ← trim_map_asciiLower,
    ← trim_map_asciiLower, sameName_iff.mp h]

/-- The first entry of a name is found by any spelling of the name. -/
theorem find?_sameName_congr {α : Type} {name name' : String} (h : sameName name name' = true)
    (nameOf : α → String) (entries : List α) :
    (entries.find? fun a => sameName (nameOf a) name)
      = entries.find? fun a => sameName (nameOf a) name' :=
  congrArg (entries.find? ·) (funext fun a => sameName_congr h (nameOf a))

/-- A method is found by any spelling of its name. -/
theorem method?_congr {name name' : String} (h : sameName name name' = true) (d : Declaration) :
    d.method? name = d.method? name' :=
  find?_sameName_congr h Method.name d.methods

/-- A column is found by any spelling of its name. -/
theorem column?_congr {name name' : String} (h : sameName name name' = true) (t : Table) :
    t.column? name = t.column? name' :=
  find?_sameName_congr h Column.name t.columns

/-- A member is resolved alike up to the echo of its name. -/
theorem resolveMember_congr {name name' : String} (h : sameName name name' = true)
    (d : Declaration) : (resolveMember d name).unechoed = (resolveMember d name').unechoed := by
  rw [resolveMember, resolveMember, method?_congr h, lowered_congr h]
  cases d.method? name' with
  | some method => rfl
  | none => rfl

theorem memberOf_congr (h : SameArgument member member') (d : Declaration) :
    (memberOf d member).map MemberOutcome.unechoed
      = (memberOf d member').map MemberOutcome.unechoed := by
  cases h with
  | none => rfl
  | some hname =>
      have htrim := trimmed_congr hname
      simp only [memberOf, isEmpty_congr htrim]
      split
      · rfl
      · rw [Option.map_some, Option.map_some, resolveMember_congr htrim]

/-- A declaration found by two look-ups, and its member. -/
theorem found_congr (h : SameArgument member member') (d : Declaration) :
    (LookupOutcome.found d (memberOf d member)).unechoed
      = (LookupOutcome.found d (memberOf d member')).unechoed := by
  rw [LookupOutcome.unechoed, LookupOutcome.unechoed, memberOf_congr h]

/-- Partial matches see the member alone in its echo. -/
theorem lookupPartial_congr (h : SameArgument member member') (settings : QuerySettings)
    (ds : List Declaration) (needle : String) :
    (lookupPartial settings ds needle member).unechoed
      = (lookupPartial settings ds needle member').unechoed := by
  unfold lookupPartial
  split
  · rfl
  · exact found_congr h _
  · rfl

/-- Look-ups answer alike. -/
theorem lookup_congr (hquery : sameName query query' = true)
    (hmember : SameArgument member member') (settings : QuerySettings) (ds : List Declaration) :
    (lookup settings ds query member).unechoed
      = (lookup settings ds query' member').unechoed := by
  have hclean := cleanName_congr hquery
  unfold lookup
  simp only [sameName_congr hclean, lowered_congr hclean]
  split
  · exact found_congr hmember _
  · split
    · exact found_congr hmember _
    · exact lookupPartial_congr hmember settings ds _

/-! ## Searches and listings -/

/-- Queries in another letter case mention the same topics. -/
theorem hints_congr (h : sameName query query' = true) : hints query = hints query' := by
  rw [hints, hints, lowered_congr h]

/-- Searches answer alike. -/
theorem search_congr (h : sameName query query' = true) (ds : List Declaration)
    (filter : TypeFilter) (limit : Nat) :
    search ds query filter limit = search ds query' filter limit := by
  rw [search, search, lowered_congr (trimmed_congr h), hints_congr h]

/-- A namespace filter is the same in another letter case. -/
theorem spaceFilter_congr {space space' : String} (h : sameName space space' = true) :
    spaceFilter space = spaceFilter space' := by
  refine lowered_congr (sameName_iff.mpr ?_)
  rw [String.toList_ofList, String.toList_ofList,
    ← dropWhile_map_asciiLower beq_backslash_asciiLower,
    ← dropWhile_map_asciiLower beq_backslash_asciiLower, sameName_iff.mp h]

/-- What only sees a text up to the case of ASCII letters does so where the text may be absent. -/
theorem map_congr {f : String → String}
    (hf : ∀ {text text' : String}, sameName text text' = true → f text = f text')
    {text text' : Option String} (h : SameArgument text text') : text.map f = text'.map f := by
  cases h with
  | none => rfl
  | some hname => exact congrArg some (hf hname)

/-- Lists of events are alike. -/
theorem listEvents_congr {filter filter' space space' : Option String}
    (hfilter : SameArgument filter filter') (hspace : SameArgument space space')
    (events : Dict EventInfo) : listEvents events filter space = listEvents events filter' space' := by
  rw [listEvents, listEvents, map_congr lowered_congr hfilter, map_congr spaceFilter_congr hspace]

/-- **The letter case of a query does not matter.**  Queries, members, filters and namespaces that
differ in the case of ASCII letters alone give the same look-ups, searches and listings of events
over any snapshot, but for the text of a missing member, which is given back as it was written. -/
theorem answers_congr (hquery : sameName query query' = true)
    (hmember : SameArgument member member') {filter filter' space space' : Option String}
    (hfilter : SameArgument filter filter') (hspace : SameArgument space space')
    (settings : QuerySettings) (s : Snapshot) :
    (lookup settings s.index.declarations query member).unechoed
        = (lookup settings s.index.declarations query' member').unechoed ∧
      (∀ kinds limit, search s.index.declarations query kinds limit
        = search s.index.declarations query' kinds limit) ∧
      listEvents s.index.eventMap filter space = listEvents s.index.eventMap filter' space' :=
  ⟨lookup_congr hquery hmember settings _, search_congr hquery _,
    listEvents_congr hfilter hspace _⟩

/-- A snapshot of one event class whose name ends in a sigma. -/
def sigmaEvents : Snapshot where
  index := .assemble ⟨⟨2024, 1, 2⟩, 3, 4, 0⟩ none none [
    { name := "LOGIN\u03a3Event", space := "App\\Event", qualifiedName := "App\\Event\\LOGIN\u03a3Event"
      methods := [{ name := "saveAll" }] }]
  schema := .empty

/-- Behind a letter of either case the sigma at the end of the query takes its final form, which the
name does not hold; the member comes back as it was written. -/
theorem answers_congr_sigma :
    (lookup {} sigmaEvents.index.declarations "Login\u03a3" (some "SAVE")).unechoed
        = (lookup {} sigmaEvents.index.declarations "lOGIN\u03a3" (some "save")).unechoed ∧
      search sigmaEvents.index.declarations "Login\u03a3" .all 10
        = ⟨[], 0, ["Authentication", "UserHelper", "Log", "LogEntry"]⟩ ∧
      (listEvents sigmaEvents.index.eventMap (some "LOGIN") (some "\\app")).matched = 1 ∧
      lookup {} sigmaEvents.index.declarations "Login" (some "SAVE")
        = .found sigmaEvents.index.declarations[0] (some (.missing "SAVE" ["saveAll"])) := by
  have hquery : sameName "Login\u03a3" "lOGIN\u03a3" = true := by decide
  have hmember : SameArgument (some "SAVE") (some "save") := .some (by decide)
  have hfilter : SameArgument (some "LOGIN") (some "login") := .some (by decide)
  have hspace : SameArgument (some "\\app") (some "\\APP") := .some (by decide)
  obtain ⟨hlookup, hsearch, hevents⟩ :=
    answers_congr hquery hmember hfilter hspace {} sigmaEvents
  refine ⟨hlookup, ?_, ?_, by decide⟩
  · rw [hsearch]
    decide +kernel
  · rw [hevents]
    decide

end Query

end CodeIndex
