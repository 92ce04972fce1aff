import CodeIndex.Query.Events
import CodeIndex.Proofs.Index.Events

/-!
# The listing of events

A listing goes through the map of events in the order of names and keeps those that pass a filter
for texts and one for namespaces.  A filter that is not there, or empty, lets everything pass, and
each filter looks at one event alone, so both together keep what each of them keeps.

* `meetsText_iff`, `meetsSpace_iff` : what the filters ask for.
* `listEvents_lists` : a listing of the events of a list of declarations.
-/

namespace CodeIndex.Query

open Event Text

/-! ## Filters -/

/-- An event meets a text filter: its name, its qualified name or its doc block contains the
filter, all in lower case. -/
def MeetsText (filter : Option String) (e : EventInfo) : Prop :=
  ∀ f, filter = some f → (lowered f).toList <:+: (lowered e.name).toList ∨
    (lowered f).toList <:+: (lowered e.qualifiedName).toList ∨
    ∃ doc, e.description = some doc ∧ (lowered f).toList <:+: (lowered doc).toList

/-- An event meets a namespace filter: its qualified name contains the filter without leading
backslashes, both in lower case. -/
def MeetsSpace (space : Option String) (e : EventInfo) : Prop :=
  ∀ f, space = some f → (spaceFilter f).toList <:+: (lowered e.qualifiedName).toList

/-- An empty filter occurs in every text, so what is asked of the filter that is there may be asked
of the active one. -/
theorem forall_activeFilter_iff {filter : Option String} {p : String → Prop}
    (hempty : ∀ f : String, f.toList = [] → p f) :
    (∀ f, activeFilter filter = some f → p f) ↔ ∀ f, filter = some f → p f := by
  cases filter with
  | none => rfl
  | some f =>
      rw [activeFilter]
      by_cases hf : f.isEmpty = true
      · have hnil : f.toList = [] := by simpa using hf
        rw [if_pos hf]
        constructor
        · rintro - _ ⟨⟩
          exact hempty f hnil
        · intro _ _ hnone
          cases hnone
      · rw [if_neg hf]

/-- An event passes a text filter if one of its three texts holds the filter. -/
theorem passesText_iff {filter : Option String} {e : EventInfo} : passesText filter e = true ↔
    ∀ f, filter = some f → f.toList <:+: (lowered e.name).toList ∨
      f.toList <:+: (lowered e.qualifiedName).toList ∨
      ∃ doc, e.description = some doc ∧ f.toList <:+: (lowered doc).toList := by
  cases filter with
  | none => simp [passesText]
  | some f => cases hdoc : e.description <;>
      simp [passesText, hdoc, holds, occursIn, contains_iff, or_assoc]

/-- An event passes a namespace filter if its qualified name holds the filter. -/
theorem passesSpace_iff {space : Option String} {e : EventInfo} : passesSpace space e = true ↔
    ∀ f, space = some f → f.toList <:+: (lowered e.qualifiedName).toList := by
  cases space with
  | none => simp [passesSpace]
  | some f => simp [passesSpace, holds, occursIn, contains_iff]

/-- The test on the text is the relation, blank filters included. -/
theorem meetsText_iff {filter : Option String} {e : EventInfo} :
    passesText (activeFilter (filter.map lowered)) e = true ↔ MeetsText filter e := by
  rw [passesText_iff, forall_activeFilter_iff, MeetsText]
  · cases filter <;> simp
  · intro f hf
    left
    rw [hf]
    exact List.nil_infix

/-- The test on the namespace is the relation, blank filters included. -/
theorem meetsSpace_iff {space : Option String} {e : EventInfo} :
    passesSpace (activeFilter (space.map spaceFilter)) e = true ↔ MeetsSpace space e := by
  rw [passesSpace_iff, forall_activeFilter_iff, MeetsSpace]
  · cases space <;> simp
  · intro f hf
    rw [hf]
    exact List.nil_infix

/-! ## Listings -/

/-- A listing of the events of a list of declarations: in strict order of qualified names, one
description for each name of an event, that of the last event of the name, if it meets both
filters; and the number of all names of events. -/
structure Lists (ds : List Declaration) (filter space : Option String) (listing : EventListing) :
    Prop where
  ordered : listing.events.Pairwise fun a b => a.qualifiedName < b.qualifiedName
  mem_iff : ∀ e, e ∈ listing.events ↔
    (∃ d, lastEvent? ds e.qualifiedName = some d ∧ Describes e d) ∧
      MeetsText filter e ∧ MeetsSpace space e
  total : listing.total
    = ((ds.filter fun d => Qualifies d).map Declaration.qualifiedName).dedup.length

/-- The map of events holds each under its own name. -/
theorem qualifiedName_of_get?_mapOf {ds : List Declaration} {name : String} {e : EventInfo}
    (h : (mapOf ds).get? name = some e) : e.qualifiedName = name := by
  rw [get?_mapOf, Option.map_eq_some_iff] at h
  obtain ⟨d, hd, rfl⟩ := h
  exact (lastEvent?_spec hd).2.2

/-- The events of the map describe the last declarations of their names. -/
theorem mem_values_mapOf_iff {ds : List Declaration} {e : EventInfo} :
    e ∈ (mapOf ds).values ↔ ∃ d, lastEvent? ds e.qualifiedName = some d ∧ Describes e d := by
  have hget : e ∈ (mapOf ds).values ↔ (mapOf ds).get? e.qualifiedName = some e := by
    rw [Dict.values, List.mem_map]
    constructor
    · rintro ⟨⟨name, _⟩, hmem, rfl⟩
      have hvalue := (Dict.mem_entries_iff _).mp hmem
      rw [qualifiedName_of_get?_mapOf hvalue]
      exact hvalue
    · intro h
      exact ⟨(e.qualifiedName, e), (Dict.mem_entries_iff _).mpr h, rfl⟩
  rw [hget, get?_mapOf, Option.map_eq_some_iff]
  simp only [describes_iff, eq_comm]

/-- The events of the map ascend by qualified name. -/
theorem pairwise_values_mapOf (ds : List Declaration) :
    (mapOf ds).values.Pairwise fun a b => a.qualifiedName < b.qualifiedName := by
  refine List.pairwise_map.mpr ((mapOf ds).ascending.imp_of_mem ?_)
  rintro ⟨name, a⟩ ⟨name', b⟩ ha hb hlt
  rw [qualifiedName_of_get?_mapOf ((Dict.mem_entries_iff _).mp ha),
    qualifiedName_of_get?_mapOf ((Dict.mem_entries_iff _).mp hb)]
  exact hlt

/-- What is listed is what `Lists` asks for. -/
theorem lists_listEvents (ds : List Declaration) (filter space : Option String) :
    Lists ds filter space (listEvents (mapOf ds) filter space) where
  ordered := (pairwise_values_mapOf ds).filter _
  mem_iff := by
    intro e
    rw [listEvents, List.mem_filter, mem_values_mapOf_iff, Bool.and_eq_true, meetsText_iff,
      meetsSpace_iff]
  total := size_mapOf ds

/-- Without a filter every event meets the text. -/
theorem meetsText_none (e : EventInfo) : MeetsText none e := by
  rintro f ⟨⟩

/-- Without a filter every event meets the namespace. -/
theorem meetsSpace_none (e : EventInfo) : MeetsSpace none e := by
  rintro f ⟨⟩

/-- Without filters every name of an event is listed, once. -/
theorem existsUnique_listed {ds : List Declaration} {d : Declaration} (hd : d ∈ ds)
    (h : Qualifies d) : ∃! e, e ∈ (listEvents (mapOf ds) none none).events ∧
      e.qualifiedName = d.qualifiedName := by
  have hlists := lists_listEvents ds none none
  obtain ⟨last, hlast⟩ := exists_lastEvent? hd h
  have hname := (lastEvent?_spec hlast).2.2
  refine ⟨info last, ⟨(hlists.mem_iff _).mpr ⟨⟨last, ?_, describes_info last⟩, ?_, ?_⟩, hname⟩, ?_⟩
  · exact (congrArg (lastEvent? ds) hname).trans hlast
  · exact meetsText_none _
  · exact meetsSpace_none _
  · rintro e ⟨hmem, hsame⟩
    obtain ⟨⟨d', hd', hdescribes⟩, -, -⟩ := (hlists.mem_iff e).mp hmem
    rw [hsame, hlast] at hd'
    cases hd'
    exact describes_iff.mp hdescribes

/-- What both filters keep is what each of them keeps. -/
theorem events_listEvents_both (ds : List Declaration) (filter space : Option String) :
    (listEvents (mapOf ds) filter space).events
      = (listEvents (mapOf ds) filter none).events.filter
          fun e => e ∈ (listEvents (mapOf ds) none space).events := by
  have hboth := lists_listEvents ds filter space
  have hfilter := lists_listEvents ds filter none
  have hspace := lists_listEvents ds none space
  refine eq_of_ascending hboth.ordered (hfilter.ordered.filter _) ?_
  intro e
  rw [List.mem_filter, decide_eq_true_iff, hboth.mem_iff, hfilter.mem_iff, hspace.mem_iff]
  constructor
  · rintro ⟨hevent, htext, hin⟩
    exact ⟨⟨hevent, htext, meetsSpace_none e⟩, hevent, meetsText_none e, hin⟩
  · rintro ⟨⟨hevent, htext, -⟩, -, -, hin⟩
    exact ⟨hevent, htext, hin⟩

/-- **The listing of the events of a list of declarations.**  It is as `Lists` says under all
filters; without filters every name of an event is listed, once; and what both filters keep is
what each of them keeps. -/
theorem listEvents_lists (ds : List Declaration) (filter space : Option String) :
    Lists ds filter space (listEvents (mapOf ds) filter space) ∧
      (∀ d ∈ ds, Qualifies d → ∃! e, e ∈ (listEvents (mapOf ds) none none).events ∧
        e.qualifiedName = d.qualifiedName) ∧
      (listEvents (mapOf ds) filter space).events
        = (listEvents (mapOf ds) filter none).events.filter
            fun e => e ∈ (listEvents (mapOf ds) none space).events :=
  ⟨lists_listEvents ds filter space, fun _ => existsUnique_listed,
    events_listEvents_both ds filter space⟩

/-- An event by its parent. -/
def savedOnce : Declaration where
  name := "Saved"
  space := "App\\Event"
  qualifiedName := "App\\Event\\Saved"
  parent := some "AbstractEvent"

/-- An event of the same name, with a constructor. -/
def savedTwice : Declaration :=
  { savedOnce with methods := [{ name := "__CONSTRUCT", parameters := [{ name := "row" }] }] }

/-- A class of the same name that is no event. -/
def savedPlain : Declaration := { savedOnce with parent := none }

/-- The last event of a name is listed, for all that a class of the name stands behind it. -/
theorem listEvents_lists_saved :
    savedOnce ∈ [savedOnce, savedTwice, savedPlain] ∧ Qualifies savedOnce ∧ ¬Qualifies savedPlain ∧
      (∃! e, e ∈ (listEvents (mapOf [savedOnce, savedTwice, savedPlain]) none none).events ∧
        e.qualifiedName = "App\\Event\\Saved") ∧
      (listEvents (mapOf [savedOnce, savedTwice, savedPlain]) (some "SAVE") (some "\\app")).events
        = [{ name := "Saved", qualifiedName := "App\\Event\\Saved", parameters := ["$row"] }] := by
  have hmem : savedOnce ∈ [savedOnce, savedTwice, savedPlain] := List.mem_cons_self
  have hqualifies : Qualifies savedOnce := by decide
  have hplain : ¬Qualifies savedPlain := by decide
  obtain ⟨-, hone, hboth⟩ :=
    listEvents_lists [savedOnce, savedTwice, savedPlain] (some "SAVE") (some "\\app")
  refine ⟨hmem, hqualifies, hplain, hone savedOnce hmem hqualifies, ?_⟩
  rw [hboth]
  decide +kernel

end CodeIndex.Query
