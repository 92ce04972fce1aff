import Mathlib.Data.List.Dedup
import Mathlib.Data.List.Induction
import Mathlib.Data.List.Perm.Basic
import CodeIndex.Index

/-!
# The maps of an index

What stands in the two maps of an index, said of the list of declarations alone: a namespace maps
to the names declared in it, and an event to its last description.  A dictionary is determined by
what is found at its keys, so neither map depends on more than that.

* `Dict.ext_get?`, `Dict.keys_eq` : a dictionary is determined by its look-ups, its keys by theirs.
* `get?_namespaceMapOf` : the names of a namespace.
* `get?_ofList`, `isSome_get?_ofList`, `get?_ofList_iff` : what a list of pairs puts into a
  dictionary; of two pairs with one key the later one.
* `size_eq_length_dedup` : a dictionary has as many entries as its keys are different names.
* `keys_namespaceMapOf_perm`, `get?_namespaceMapOf_perm`, `Event.keys_mapOf_perm`,
  `Event.mapOf_perm`, `Index.stats_perm` : the maps and the counts under another order of the
  declarations.
-/

namespace CodeIndex

/-! ## The last of its kind -/

section

variable {α : Type} {p : α → Bool} {l : List α} {a : α}

/-- The last element with a property is an element with the property. -/
theorem mem_of_getLast?_filter (h : (l.filter p).getLast? = some a) : a ∈ l ∧ p a = true :=
  List.mem_filter.mp (List.mem_of_getLast? h)

/-- Where there is one of a kind, one is the last. -/
theorem exists_getLast?_filter (ha : a ∈ l) (hp : p a = true) :
    ∃ last, (l.filter p).getLast? = some last :=
  ⟨_, List.getLast?_eq_some_getLast (List.ne_nil_of_mem (List.mem_filter.mpr ⟨ha, hp⟩))⟩

end

/-! ## Dictionaries -/

/-- Lists of the same members, with ascending keys, are equal. -/
theorem eq_of_ascending {α : Type} {key : α → String} {l l' : List α}
    (h : l.Pairwise fun a b => key a < key b) (h' : l'.Pairwise fun a b => key a < key b)
    (hmem : ∀ a, a ∈ l ↔ a ∈ l') : l = l' := by
  have hnodup : ∀ {l : List α}, (l.Pairwise fun a b => key a < key b) → l.Nodup := by
    intro l hl
    refine hl.imp ?_
    rintro a b hlt rfl
    exact String.lt_irrefl _ hlt
  have hperm := (List.perm_ext_iff_of_nodup (hnodup h) (hnodup h')).mpr hmem
  refine hperm.eq_of_pairwise ?_ h h'
  intro a b _ _ hab hba
  exact absurd (String.lt_trans hab hba) (String.lt_irrefl _)

/-- What is found at a key is an entry. -/
theorem mem_of_findEntry {α : Type} {key : String} {value : α} {entries : List (String × α)}
    (h : findEntry key entries = some value) : (key, value) ∈ entries := by
  induction entries with
  | nil => cases h
  | cons e entries ih =>
      obtain ⟨k, v⟩ := e
      rw [findEntry] at h
      by_cases hkey : key = k
      · rw [if_pos hkey, Option.some.injEq] at h
        rw [hkey, h]
        exact List.mem_cons_self
      · rw [if_neg hkey] at h
        exact List.mem_cons_of_mem _ (ih h)

/-- Where keys ascend, an entry is what is found at its key. -/
theorem findEntry_of_mem {α : Type} {key : String} {value : α} {entries : List (String × α)}
    (hasc : KeysAscend entries) (h : (key, value) ∈ entries) :
    findEntry key entries = some value := by
  induction entries with
  | nil => cases h
  | cons e entries ih =>
      obtain ⟨k, v⟩ := e
      obtain ⟨hhead, htail⟩ := List.pairwise_cons.mp hasc
      rw [findEntry]
      rcases List.mem_cons.mp h with heq | hmem
      · cases heq
        exact if_pos rfl
      · have hlt : k < key := hhead _ hmem
        have hne : key ≠ k := by
          rintro rfl
          exact String.lt_irrefl _ hlt
        rw [if_neg hne]
        exact ih htail hmem

namespace Dict

variable {α : Type} {d d' : Dict α}

/-- The entries of a map are what it finds under its keys. -/
theorem mem_entries_iff (d : Dict α) {key : String} {value : α} :
    (key, value) ∈ d.entries ↔ d.get? key = some value :=
  ⟨findEntry_of_mem d.ascending, mem_of_findEntry⟩

/-- A dictionary is determined by what is found at its keys. -/
theorem ext_get? (h : ∀ key, d.get? key = d'.get? key) : d = d' := by
  have hentries : d.entries = d'.entries := by
    refine eq_of_ascending d.ascending d'.ascending ?_
    rintro ⟨key, value⟩
    rw [mem_entries_iff, mem_entries_iff, h key]
  cases d
  cases d'
  cases hentries
  rfl

/-- The keys of a map are those it finds something under. -/
theorem mem_keys_iff (d : Dict α) (key : String) : key ∈ d.keys ↔ (d.get? key).isSome = true := by
  rw [keys, List.mem_map, Option.isSome_iff_exists]
  constructor
  · rintro ⟨⟨_, value⟩, hmem, rfl⟩
    exact ⟨value, d.mem_entries_iff.mp hmem⟩
  · rintro ⟨value, hvalue⟩
    exact ⟨(key, value), d.mem_entries_iff.mpr hvalue, rfl⟩

/-- A map has every key once. -/
theorem nodup_keys (d : Dict α) : d.keys.Nodup := by
  refine (List.pairwise_map.mpr d.ascending : d.keys.Pairwise (· < ·)).imp ?_
  rintro a b hlt rfl
  exact String.lt_irrefl _ hlt

/-- Its keys are determined by where something is found. -/
theorem keys_eq (h : ∀ key, (d.get? key).isSome = (d'.get? key).isSome) : d.keys = d'.keys := by
  have hasc : ∀ d : Dict α, d.keys.Pairwise fun a b => id a < id b :=
    fun d => List.pairwise_map.mpr d.ascending
  refine eq_of_ascending (hasc d) (hasc d') ?_
  intro key
  rw [mem_keys_iff, mem_keys_iff, h key]

/-- Maps with the same keys have the same size. -/
theorem size_eq (h : d.keys = d'.keys) : d.size = d'.size := by
  have hlength := congrArg List.length h
  rwa [keys, keys, List.length_map, List.length_map] at hlength

/-- The last pair of a list is inserted last. -/
theorem ofList_concat (pairs : List (String × α)) (key : String) (value : α) :
    ofList (pairs ++ [(key, value)]) = (ofList pairs).insert key value := by
  rw [ofList, List.foldl_append]
  rfl

/-- **The last write wins**: what is found at a key is the value of its last pair. -/
theorem get?_ofList (pairs : List (String × α)) (key : String) :
    (ofList pairs).get? key = ((pairs.filter fun p => p.1 == key).getLast?).map Prod.snd := by
  induction pairs using List.reverseRecOn with
  | nil => rfl
  | append_singleton pairs p ih =>
      obtain ⟨k, v⟩ := p
      rw [ofList_concat, List.filter_append]
      by_cases hkey : k = key
      · rw [hkey, get?_insert_self, List.filter_cons_of_pos (by simp), List.filter_nil,
          List.getLast?_concat]
        rfl
      · rw [get?_insert_of_ne _ (Ne.symm hkey), ih, List.filter_cons_of_neg (by simpa using hkey),
          List.filter_nil, List.append_nil]

/-- Something is found at the keys that were written. -/
theorem isSome_get?_ofList (pairs : List (String × α)) (key : String) :
    ((ofList pairs).get? key).isSome = true ↔ key ∈ pairs.map Prod.fst := by
  induction pairs using List.reverseRecOn with
  | nil => simp [ofList, empty, get?, findEntry]
  | append_singleton pairs p ih =>
      obtain ⟨k, v⟩ := p
      rw [ofList_concat, List.map_append, List.mem_append]
      by_cases hkey : key = k
      · rw [hkey, get?_insert_self]
        simp
      · rw [get?_insert_of_ne _ hkey, ih]
        simp [hkey]

/-- A dictionary has as many entries as its keys are different names. -/
theorem size_eq_length_dedup {names : List String} (h : ∀ key, key ∈ d.keys ↔ key ∈ names) :
    d.size = names.dedup.length := by
  have hperm : d.keys.Perm names.dedup := by
    refine (List.perm_ext_iff_of_nodup d.nodup_keys (List.nodup_dedup names)).mpr ?_
    intro key
    rw [h key, List.mem_dedup]
  rw [← hperm.length_eq, keys, List.length_map]
  rfl

/-- A map made from a list has as many entries as the list has keys. -/
theorem size_ofList (pairs : List (String × α)) :
    (ofList pairs).size = (pairs.map Prod.fst).dedup.length := by
  refine size_eq_length_dedup fun key => ?_
  rw [mem_keys_iff, isSome_get?_ofList]

/-- Of pairs with different keys each is found. -/
theorem get?_ofList_iff {pairs : List (String × α)} (hnodup : (pairs.map Prod.fst).Nodup)
    (key : String) (value : α) : (ofList pairs).get? key = some value ↔ (key, value) ∈ pairs := by
  induction pairs using List.reverseRecOn with
  | nil => simp [ofList, empty, get?, findEntry]
  | append_singleton pairs p ih =>
      obtain ⟨k, v⟩ := p
      rw [List.map_append, List.nodup_append] at hnodup
      obtain ⟨hfront, -, hother⟩ := hnodup
      rw [ofList_concat, List.mem_append, List.mem_singleton, Prod.mk.injEq]
      by_cases hkey : key = k
      · subst hkey
        have hnew : (key, value) ∉ pairs := by
          intro hmem
          exact hother key (List.mem_map_of_mem hmem) key (by simp) rfl
        rw [get?_insert_self]
        simp [hnew, eq_comm]
      · rw [get?_insert_of_ne _ hkey, ih hfront]
        simp [hkey]

end Dict

/-! ## Namespaces -/

/-- The names declared in a namespace; the global one has none. -/
def namesIn (space : String) (ds : List Declaration) : List String :=
  (ds.filter fun d => !d.space.isEmpty && d.space == space).map Declaration.name

/-- A bucket grows by the names in its namespace. -/
theorem get?_foldl_addToNamespace (ds : List Declaration) (map : Dict (List String))
    (space : String) : (ds.foldl addToNamespace map).get? space
      = if namesIn space ds = [] then map.get? space
        else some ((map.get? space).getD [] ++ namesIn space ds) := by
  induction ds generalizing map with
  | nil => rfl
  | cons d ds ih =>
      rw [List.foldl_cons, ih]
      by_cases hempty : d.space.isEmpty = true
      · have hrest : namesIn space (d :: ds) = namesIn space ds := by
          simp [namesIn, hempty]
        rw [hrest, addToNamespace, if_pos hempty]
      · rw [addToNamespace, if_neg hempty]
        by_cases hspace : d.space = space
        · have hrest : namesIn space (d :: ds) = d.name :: namesIn space ds := by
            rw [← hspace]
            simp [namesIn, hempty]
          rw [hspace, Dict.get?_insert_self, hrest]
          by_cases hnone : namesIn space ds = []
          · simp [hnone]
          · simp [hnone]
        · have hrest : namesIn space (d :: ds) = namesIn space ds := by
            simp [namesIn, hspace]
          rw [hrest, Dict.get?_insert_of_ne _ (Ne.symm hspace)]

/-- A namespace maps to the names declared in it, if there are any. -/
theorem get?_namespaceMapOf (ds : List Declaration) (space : String) :
    (namespaceMapOf ds).get? space
      = if namesIn space ds = [] then none else some (namesIn space ds) := by
  rw [namespaceMapOf, get?_foldl_addToNamespace]
  rfl

section

variable {ds ds' : List Declaration}

/-- Another order of the declarations gives the same names in another order. -/
theorem namesIn_perm (h : ds.Perm ds') (space : String) :
    (namesIn space ds).Perm (namesIn space ds') :=
  (h.filter _).map _

/-- Whether a namespace has names does not depend on the order. -/
theorem namesIn_eq_nil_iff (h : ds.Perm ds') (space : String) :
    namesIn space ds = [] ↔ namesIn space ds' = [] := by
  rw [← List.length_eq_zero_iff, ← List.length_eq_zero_iff, (namesIn_perm h space).length_eq]

/-- The namespaces do not depend on the order of the declarations. -/
theorem keys_namespaceMapOf_perm (h : ds.Perm ds') :
    (namespaceMapOf ds).keys = (namespaceMapOf ds').keys := by
  apply Dict.keys_eq
  intro space
  have hnil := namesIn_eq_nil_iff h space
  rw [get?_namespaceMapOf, get?_namespaceMapOf]
  by_cases hnone : namesIn space ds = []
  · rw [if_pos hnone, if_pos (hnil.mp hnone)]
  · rw [if_neg hnone, if_neg (mt hnil.mpr hnone)]
    rfl

/-- The names of a namespace are the same but for their order. -/
theorem get?_namespaceMapOf_perm (h : ds.Perm ds') {space : String} {names names' : List String}
    (hnames : (namespaceMapOf ds).get? space = some names)
    (hnames' : (namespaceMapOf ds').get? space = some names') : names.Perm names' := by
  have hin : ∀ {ds : List Declaration} {names : List String},
      (namespaceMapOf ds).get? space = some names → names = namesIn space ds := by
    intro ds names hget
    rw [get?_namespaceMapOf] at hget
    split at hget
    · cases hget
    · exact (Option.some.inj hget).symm
  rw [hin hnames, hin hnames']
  exact namesIn_perm h space

/-! ## Events -/

/-- Another order of the declarations gives the same events in another order. -/
theorem eventPairs_perm (h : ds.Perm ds') :
    ((ds.filter Event.isEvent).map fun d => (d.qualifiedName, Event.info d)).Perm
      ((ds'.filter Event.isEvent).map fun d => (d.qualifiedName, Event.info d)) :=
  (h.filter _).map _

/-- The names of events do not depend on the order of the declarations. -/
theorem Event.keys_mapOf_perm (h : ds.Perm ds') : (mapOf ds).keys = (mapOf ds').keys := by
  apply Dict.keys_eq
  intro key
  have hiff : ((mapOf ds).get? key).isSome = true ↔ ((mapOf ds').get? key).isSome = true := by
    rw [mapOf, mapOf, Dict.isSome_get?_ofList, Dict.isSome_get?_ofList]
    exact ((eventPairs_perm h).map Prod.fst).mem_iff
  exact Bool.eq_iff_iff.mpr hiff

/-- Nor do the events, if no two share a name. -/
theorem Event.mapOf_perm (h : ds.Perm ds')
    (hnodup : ((ds.filter isEvent).map Declaration.qualifiedName).Nodup) :
    mapOf ds = mapOf ds' := by
  have hpairs := eventPairs_perm h
  have hkeys : (((ds.filter isEvent).map fun d => (d.qualifiedName, info d)).map
      Prod.fst).Nodup := by
    rwa [List.map_map]
  apply Dict.ext_get?
  intro key
  apply Option.ext
  intro event
  rw [mapOf, mapOf, Dict.get?_ofList_iff hkeys,
    Dict.get?_ofList_iff ((hpairs.map Prod.fst).nodup_iff.mp hkeys)]
  exact hpairs.mem_iff

/-! ## Counts -/

/-- Totals do not depend on the order. -/
theorem Index.total_perm (h : ds.Perm ds') (count : Declaration → Nat) :
    total count ds = total count ds' :=
  (h.map count).sum_nat

/-- The counts of an index do not depend on the order of the declarations. -/
theorem Index.stats_perm (h : ds.Perm ds') (builtAt builtAt' : Timestamp)
    (commit commit' branch branch' : Option String) :
    (assemble builtAt commit branch ds).stats = (assemble builtAt' commit' branch' ds').stats := by
  have hkind : ∀ kind, countKind kind ds = countKind kind ds' := fun kind => h.countP_eq _
  have htotal := Index.total_perm h
  have hspaces := Dict.size_eq (keys_namespaceMapOf_perm h)
  have hevents := Dict.size_eq (Event.keys_mapOf_perm h)
  simp only [stats, assemble, hkind, htotal, hspaces, hevents]

end

end CodeIndex
