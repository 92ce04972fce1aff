import Mathlib.Algebra.BigOperators.Group.List.Lemmas
import CodeIndex.Proofs.Index.Events

/-!
# The counts of an index

The map of namespaces sorts the names of a list of declarations into one bucket for each
namespace, and loses none: the buckets hold as many names as there are declarations outside the
global namespace.  The counts are taken from the declarations, from that map and from the map of
events; they agree with the list of declarations they were all built from.

* `IsMapOf` : what the map of namespaces says of the declarations.
* `get?_namespaceMapOf_append` : the map of two lists joins the buckets of their maps.
* `namespaceMapOf_counts` : maps and counts agree with the declarations.
-/

namespace CodeIndex

/-- The names of a list of declarations by namespace: the keys are the namespaces that occur, but
for the global one; the bucket of each holds the names declared in it, in order; and all buckets
with the global declarations hold as many names as there are declarations. -/
structure IsMapOf (ds : List Declaration) (map : Dict (List String)) : Prop where
  mem_keys : ∀ space, space ∈ map.keys ↔ space ≠ "" ∧ ∃ d ∈ ds, d.space = space
  bucket : ∀ space names, map.get? space = some names →
    names = (ds.filter fun d => d.space = space).map Declaration.name
  total : ((map.values.map List.length).foldr (· + ·) 0)
    + (ds.filter fun d => d.space = "").length = ds.length

/-- What the counts of an index say of its declarations. -/
structure Stats.Counts (ds : List Declaration) (stats : Stats) : Prop where
  classes : stats.classes = (ds.filter fun d => d.kind = .cls).length
  interfaces : stats.interfaces = (ds.filter fun d => d.kind = .iface).length
  traits : stats.traits = (ds.filter fun d => d.kind = .trt).length
  declarations : stats.declarations = ds.length
  methods : stats.methods = (ds.flatMap Declaration.methods).length
  properties : stats.properties = (ds.flatMap Declaration.properties).length
  constants : stats.constants = (ds.flatMap Declaration.constants).length
  namespaces : stats.namespaces
    = ((ds.map Declaration.space).filter fun space => space ≠ "").dedup.length
  events : stats.events
    = ((ds.filter fun d => Event.Qualifies d).map Declaration.qualifiedName).dedup.length

/-! ## Namespaces -/

/-- The names in a namespace are those of its declarations, in order. -/
theorem namesIn_eq_of_ne {space : String} (h : space ≠ "") (ds : List Declaration) :
    namesIn space ds = (ds.filter fun d => d.space = space).map Declaration.name := by
  rw [namesIn]
  congr 1
  refine List.filter_congr fun d _ => ?_
  by_cases hspace : d.space = space
  · simp [hspace, h]
  · simp [hspace]

/-- The global namespace has no bucket. -/
theorem namesIn_empty (ds : List Declaration) : namesIn "" ds = [] := by
  rw [namesIn, List.map_eq_nil_iff, List.filter_eq_nil_iff]
  intro d _ hspace
  rw [Bool.and_eq_true, Bool.not_eq_true', beq_iff_eq] at hspace
  rw [hspace.2] at hspace
  exact absurd hspace.1 (by decide)

/-- Names are collected list by list. -/
theorem namesIn_append (space : String) (a b : List Declaration) :
    namesIn space (a ++ b) = namesIn space a ++ namesIn space b := by
  rw [namesIn, List.filter_append, List.map_append]
  rfl

/-- **The map of two lists joins the buckets of their maps.** -/
theorem get?_namespaceMapOf_append (a b : List Declaration) (space : String) :
    (namespaceMapOf (a ++ b)).get? space
      = Option.merge (· ++ ·) ((namespaceMapOf a).get? space) ((namespaceMapOf b).get? space) := by
  rw [get?_namespaceMapOf, get?_namespaceMapOf, get?_namespaceMapOf, namesIn_append]
  by_cases ha : namesIn space a = []
  · by_cases hb : namesIn space b = []
    · simp [ha, hb]
    · simp [ha, hb]
  · by_cases hb : namesIn space b = []
    · simp [ha, hb]
    · simp [ha, hb]

/-- The namespaces of the declarations that are not global, one for each declaration. -/
def spacesOf (ds : List Declaration) : List String :=
  (ds.map Declaration.space).filter fun space => space ≠ ""

/-- A namespace is listed if it is not the global one and has a declaration. -/
theorem mem_spacesOf_iff {ds : List Declaration} {space : String} :
    space ∈ spacesOf ds ↔ space ≠ "" ∧ ∃ d ∈ ds, d.space = space := by
  rw [spacesOf, List.mem_filter, List.mem_map, decide_eq_true_iff, and_comm]

/-- A bucket holds one name for each declaration of its namespace. -/
theorem length_namesIn {space : String} (h : space ≠ "") (ds : List Declaration) :
    (namesIn space ds).length = (spacesOf ds).count space := by
  rw [namesIn_eq_of_ne h, List.length_map, spacesOf, List.count_filter (by simpa using h),
    List.count_eq_countP, List.countP_map, List.countP_eq_length_filter]
  congr 1

/-- The keys of the map are the namespaces. -/
theorem mem_keys_namespaceMapOf {ds : List Declaration} {space : String} :
    space ∈ (namespaceMapOf ds).keys ↔ space ∈ spacesOf ds := by
  rw [Dict.mem_keys_iff, get?_namespaceMapOf]
  by_cases hempty : space = ""
  · rw [hempty, if_pos (namesIn_empty ds), mem_spacesOf_iff]
    simp
  · have hcount := length_namesIn hempty ds
    rw [← List.count_pos_iff, ← hcount, List.length_pos_iff]
    by_cases hnone : namesIn space ds = []
    · simp [hnone]
    · simp [hnone]

/-- What is found under a namespace is its bucket, and the global one has none. -/
theorem bucket_of_get? {ds : List Declaration} {space : String} {names : List String}
    (h : (namespaceMapOf ds).get? space = some names) :
    space ≠ "" ∧ names = namesIn space ds := by
  rw [get?_namespaceMapOf] at h
  split at h
  · cases h
  · rename_i hsome
    refine ⟨?_, (Option.some.inj h).symm⟩
    rintro rfl
    exact hsome (namesIn_empty ds)

/-- The buckets hold one name for each declaration that is not global. -/
theorem total_values_namespaceMapOf (ds : List Declaration) :
    ((namespaceMapOf ds).values.map List.length).foldr (· + ·) 0 = (spacesOf ds).length := by
  have hvalues : (namespaceMapOf ds).values.map List.length
      = (namespaceMapOf ds).keys.map fun space => (spacesOf ds).count space := by
    rw [Dict.values, Dict.keys, List.map_map, List.map_map]
    refine List.map_congr_left ?_
    rintro ⟨space, names⟩ hmem
    obtain ⟨hspace, rfl⟩ := bucket_of_get? ((Dict.mem_entries_iff _).mp hmem)
    exact length_namesIn hspace ds
  have hkeys : (namespaceMapOf ds).keys.Perm (spacesOf ds).dedup := by
    refine (List.perm_ext_iff_of_nodup (Dict.nodup_keys _) (List.nodup_dedup _)).mpr ?_
    intro space
    rw [mem_keys_namespaceMapOf, List.mem_dedup]
  calc ((namespaceMapOf ds).values.map List.length).foldr (· + ·) 0
      = ((namespaceMapOf ds).keys.map fun space => (spacesOf ds).count space).sum := by
        rw [hvalues]
        rfl
    _ = ((spacesOf ds).dedup.map fun space => (spacesOf ds).count space).sum :=
        (hkeys.map _).sum_nat
    _ = (spacesOf ds).length := List.sum_map_count_dedup_eq_length _

/-- The map has the keys, buckets and order that `IsMapOf` asks for. -/
theorem isMapOf_namespaceMapOf (ds : List Declaration) : IsMapOf ds (namespaceMapOf ds) where
  mem_keys := fun space => mem_keys_namespaceMapOf.trans mem_spacesOf_iff
  bucket := by
    intro space names hget
    obtain ⟨hspace, rfl⟩ := bucket_of_get? hget
    exact namesIn_eq_of_ne hspace ds
  total := by
    have hsplit := List.length_eq_length_filter_add (l := ds) fun d => decide (d.space = "")
    have hspaces : (spacesOf ds).length = (ds.filter fun d => !decide (d.space = "")).length := by
      rw [spacesOf, List.filter_map, List.length_map]
      congr 2
      funext d
      simp
    rw [total_values_namespaceMapOf, hspaces]
    omega

/-! ## Counts -/

/-- The count of a kind is the number of its declarations. -/
theorem Index.countKind_eq (kind : DeclarationKind) (ds : List Declaration) :
    countKind kind ds = (ds.filter fun d => d.kind = kind).length := by
  rw [countKind, List.countP_eq_length_filter]
  congr 1

/-- The total of a kind of member is the number of all these members. -/
theorem Index.total_eq {α : Type} (members : Declaration → List α) (ds : List Declaration) :
    total (fun d => (members d).length) ds = (ds.flatMap members).length := by
  rw [List.length_flatMap]
  rfl

/-- The statistics of an index count its declarations. -/
theorem counts_stats (ds : List Declaration) (builtAt : Timestamp) (commit branch : Option String) :
    (Index.assemble builtAt commit branch ds).stats.Counts ds where
  classes := Index.countKind_eq .cls ds
  interfaces := Index.countKind_eq .iface ds
  traits := Index.countKind_eq .trt ds
  declarations := Index.declarations_stats _
  methods := Index.total_eq _ ds
  properties := Index.total_eq _ ds
  constants := Index.total_eq _ ds
  namespaces := Dict.size_eq_length_dedup fun _ => mem_keys_namespaceMapOf
  events := Event.size_mapOf ds

/-- **Maps and counts agree with the declarations.**  The map of namespaces is as `IsMapOf` says;
the map of two lists joins the buckets of their maps; and the counts of the index of a list are as
`Stats.Counts` says. -/
theorem namespaceMapOf_counts :
    (∀ ds, IsMapOf ds (namespaceMapOf ds)) ∧
      (∀ a b space, (namespaceMapOf (a ++ b)).get? space
        = Option.merge (· ++ ·) ((namespaceMapOf a).get? space)
            ((namespaceMapOf b).get? space)) ∧
      ∀ ds builtAt commit branch,
        (Index.assemble builtAt commit branch ds).stats.Counts ds :=
  ⟨isMapOf_namespaceMapOf, get?_namespaceMapOf_append, counts_stats⟩

end CodeIndex
