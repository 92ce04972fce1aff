import CodeIndex.Proofs.Index.Maps
import CodeIndex.Proofs.Text.Pieces

/-!
# The events of an index

Which declarations are events, said of their names alone; how an event is described; and what the
map of events holds: under each qualified name the description of the last event of that name.

* `isEvent_iff` : the declarations that are events.
* `describes_iff` : an event is described by its first constructor and its doc block.
* `get?_mapOf` : what is found under a name.
* `size_mapOf` : there are as many as there are names of events.
-/

namespace CodeIndex

namespace Event

open Text

/-! ## Which declarations are events -/

/-- A declaration is an event: a segment of its namespace is `Event`, it is none of the machinery,
and it is named like an event or its parent is. -/
structure Qualifies (d : Declaration) : Prop where
  space : IsSegment '\\' "Event".toList d.space.toList
  name : d.name ∉ machinery
  marked : "Event".toList <:+ d.name.toList ∨ ∃ parent, d.parent = some parent ∧
    ("Event".toList <:+ parent.toList ∨ "AbstractEvent".toList <:+: parent.toList)

/-- A namespace belongs to events if `Event` is one of its segments. -/
theorem inEventNamespace_iff {space : String} :
    inEventNamespace space = true ↔ IsSegment '\\' "Event".toList space.toList := by
  rw [← mem_splitAt_iff (by decide), inEventNamespace, List.any_eq_true]
  simp

/-- A name ends in `Event` if that is its suffix. -/
theorem endsInEvent_iff {s : String} : endsInEvent s = true ↔ "Event".toList <:+ s.toList :=
  List.isSuffixOf_iff_suffix

/-- A parent is one of an event if it ends in `Event` or holds `AbstractEvent`. -/
theorem isEventParent_iff {parent : String} : isEventParent parent = true ↔
    "Event".toList <:+ parent.toList ∨ "AbstractEvent".toList <:+: parent.toList := by
  rw [isEventParent, Bool.or_eq_true, endsInEvent_iff, occursIn, contains_iff]

/-- **The declarations that are events.** -/
theorem isEvent_iff {d : Declaration} : isEvent d = true ↔ Qualifies d := by
  have hparent : (d.parent.map isEventParent).getD false = true ↔ ∃ parent,
      d.parent = some parent ∧
        ("Event".toList <:+ parent.toList ∨ "AbstractEvent".toList <:+: parent.toList) := by
    cases d.parent with
    | none => simp
    | some parent => simp [isEventParent_iff]
  rw [isEvent, Bool.and_eq_true, Bool.and_eq_true, Bool.or_eq_true, inEventNamespace_iff,
    endsInEvent_iff, hparent, Bool.not_eq_true', List.contains_eq_mem, decide_eq_false_iff_not]
  constructor
  · rintro ⟨⟨hspace, hname⟩, hmarked⟩
    exact ⟨hspace, hname, hmarked⟩
  · rintro ⟨hspace, hname, hmarked⟩
    exact ⟨⟨hspace, hname⟩, hmarked⟩

instance (d : Declaration) : Decidable (Qualifies d) := decidable_of_iff _ isEvent_iff

/-- The events among declarations are those that qualify. -/
theorem filter_isEvent (ds : List Declaration) :
    ds.filter isEvent = ds.filter fun d => Qualifies d := by
  refine List.filter_congr fun d _ => ?_
  rw [Bool.eq_iff_iff, decide_eq_true_iff, isEvent_iff]

/-! ## How an event is described -/

/-- A description of a declaration: its names, its doc block, and the parameters of the first
constructor among its methods, none if there is no constructor. -/
structure Describes (e : EventInfo) (d : Declaration) : Prop where
  name : e.name = d.name
  qualifiedName : e.qualifiedName = d.qualifiedName
  description : e.description = d.doc
  parameters : ∀ before ctor after, d.methods = before ++ ctor :: after →
    (∀ m ∈ before, m.isConstructor = false) → ctor.isConstructor = true →
      e.parameters = ctor.parameters.map parameterText
  no_parameters : (∀ m ∈ d.methods, m.isConstructor = false) → e.parameters = []

/-- An event with a constructor lists its parameters. -/
theorem parameters_info_of_some {d : Declaration} {ctor : Method}
    (h : d.constructor? = some ctor) :
    (info d).parameters = ctor.parameters.map parameterText := by
  simp only [info, h, Option.map_some, Option.getD_some]

/-- An event without a constructor lists no parameters. -/
theorem parameters_info_of_none {d : Declaration} (h : d.constructor? = none) :
    (info d).parameters = [] := by
  simp only [info, h, Option.map_none, Option.getD_none, List.map_nil]

/-- The entry of an event describes its declaration. -/
theorem describes_info (d : Declaration) : Describes (info d) d where
  name := rfl
  qualifiedName := rfl
  description := rfl
  parameters := by
    intro before ctor after hmethods hbefore hctor
    refine parameters_info_of_some (List.find?_eq_some_iff_append.mpr ⟨hctor, before, after, ?_⟩)
    exact ⟨hmethods, fun m hm => by rw [hbefore m hm]; rfl⟩
  no_parameters := by
    intro hnone
    refine parameters_info_of_none (List.find?_eq_none.mpr ?_)
    intro m hm
    rw [hnone m hm]
    exact Bool.false_ne_true

/-- A declaration has one description. -/
theorem describes_iff {e : EventInfo} {d : Declaration} : Describes e d ↔ e = info d := by
  constructor
  · intro h
    have hparameters : e.parameters = (info d).parameters := by
      cases hctor : d.constructor? with
      | none =>
          rw [parameters_info_of_none hctor]
          exact h.no_parameters fun m hm => by simpa using List.find?_eq_none.mp hctor m hm
      | some ctor =>
          obtain ⟨hfound, before, after, hmethods, hbefore⟩ :=
            List.find?_eq_some_iff_append.mp hctor
          rw [parameters_info_of_some hctor]
          exact h.parameters before ctor after hmethods (by simpa using hbefore) hfound
    obtain ⟨hname, hqualified, hdescription, -, -⟩ := h
    cases e
    cases hname
    cases hqualified
    cases hdescription
    cases hparameters
    rfl
  · rintro rfl
    exact describes_info d

/-! ## What the map holds -/

/-- The last event of a qualified name. -/
def lastEvent? (ds : List Declaration) (name : String) : Option Declaration :=
  (ds.filter fun d => Qualifies d ∧ d.qualifiedName = name).getLast?

/-- The last event of a name is a declaration of that name that qualifies. -/
theorem lastEvent?_spec {ds : List Declaration} {name : String} {d : Declaration}
    (h : lastEvent? ds name = some d) : d ∈ ds ∧ Qualifies d ∧ d.qualifiedName = name := by
  obtain ⟨hmem, hevent⟩ := mem_of_getLast?_filter h
  exact ⟨hmem, of_decide_eq_true hevent⟩

/-- Of the events of a name one is the last. -/
theorem exists_lastEvent? {ds : List Declaration} {d : Declaration} (hd : d ∈ ds)
    (h : Qualifies d) : ∃ last, lastEvent? ds d.qualifiedName = some last :=
  exists_getLast?_filter hd (decide_eq_true ⟨h, rfl⟩)

/-- **Under a name stands the description of the last event of that name**, whatever else is
declared behind it. -/
theorem get?_mapOf (ds : List Declaration) (name : String) :
    (mapOf ds).get? name = (lastEvent? ds name).map info := by
  have hpairs : ((ds.filter isEvent).map fun d => (d.qualifiedName, info d)).filter
      (fun p => p.1 == name)
        = (ds.filter fun d => Qualifies d ∧ d.qualifiedName = name).map
            fun d => (d.qualifiedName, info d) := by
    rw [List.filter_map, filter_isEvent, List.filter_filter]
    congr 1
    refine List.filter_congr fun d _ => ?_
    rw [Bool.eq_iff_iff, Bool.and_eq_true, Function.comp_apply, beq_iff_eq, decide_eq_true_iff,
      decide_eq_true_iff, and_comm]
  rw [mapOf, Dict.get?_ofList, hpairs, List.getLast?_map, Option.map_map]
  rfl

/-- There are as many events as there are names of events. -/
theorem size_mapOf (ds : List Declaration) : (mapOf ds).size
    = ((ds.filter fun d => Qualifies d).map Declaration.qualifiedName).dedup.length := by
  rw [mapOf, Dict.size_ofList, filter_isEvent, List.map_map]
  rfl

end Event

end CodeIndex
