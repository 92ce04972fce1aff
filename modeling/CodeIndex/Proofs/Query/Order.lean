import CodeIndex.Query.Search
import CodeIndex.Proofs.Index.Maps

/-!
# The order of discovery

Two indexes of the same declarations, found in another order, give the same answers.  A look-up
counts its matches before it takes one, and ranks the nearest names by a total order; a search
collects its rows before it ranks them.  What may differ is the order of names in a bucket, which
candidates of an ambiguous name are listed first, and the order of rows of one rank.

* `filter_cases` : what a look-up sees of its matches does not depend on their order.
* `scored_perm` : nor does the ranking of names.
* `lookup_perm`, `search_perm` : nor do the answers.
* `Index.alike_of_perm` : two orders of one list of declarations.
-/

namespace CodeIndex

/-! ## Nearest names -/

/-- Scores are compared by distance first, then by name. -/
theorem scoreLe_iff (a b : Nat × String) :
    scoreLe a b = true ↔ a.1 < b.1 ∨ (a.1 = b.1 ∧ ¬b.2 < a.2) := by
  rw [scoreLe, Bool.or_eq_true, Bool.and_eq_true, decide_eq_true_iff, beq_iff_eq,
    Bool.not_eq_true', decide_eq_false_iff_not]

/-- The order of scores is transitive. -/
theorem scoreLe_trans (a b c : Nat × String) (hab : scoreLe a b = true) (hbc : scoreLe b c = true) :
    scoreLe a c = true := by
  rw [scoreLe_iff] at *
  rcases hab with hab | ⟨hab, hle⟩
  · rcases hbc with hbc | ⟨hbc, -⟩
    · exact .inl (Nat.lt_trans hab hbc)
    · exact .inl (hbc ▸ hab)
  · rcases hbc with hbc | ⟨hbc, hle'⟩
    · exact .inl (hab ▸ hbc)
    · refine .inr ⟨hab.trans hbc, ?_⟩
      rw [String.not_lt] at *
      exact String.le_trans hle hle'

/-- Any two scores are comparable. -/
theorem scoreLe_total (a b : Nat × String) : (scoreLe a b || scoreLe b a) = true := by
  rw [Bool.or_eq_true, scoreLe_iff, scoreLe_iff]
  rcases Nat.lt_trichotomy a.1 b.1 with hlt | heq | hgt
  · exact .inl (.inl hlt)
  · rcases String.le_total a.2 b.2 with hle | hle
    · exact .inl (.inr ⟨heq, String.not_lt.mpr hle⟩)
    · exact .inr (.inr ⟨heq.symm, String.not_lt.mpr hle⟩)
  · exact .inr (.inl hgt)

/-- Scores at the same rank are the same. -/
theorem scoreLe_antisymm (a b : Nat × String) (hab : scoreLe a b = true)
    (hba : scoreLe b a = true) : a = b := by
  rw [scoreLe_iff] at hab hba
  have hscore : a.1 = b.1 := by omega
  have hle : ¬b.2 < a.2 := by
    rcases hab with hlt | ⟨-, hle⟩
    · omega
    · exact hle
  have hge : ¬a.2 < b.2 := by
    rcases hba with hlt | ⟨-, hge⟩
    · omega
    · exact hge
  rw [String.not_lt] at hle hge
  exact Prod.ext hscore (String.le_antisymm hle hge)

/-- Scored labels come in one order only. -/
theorem scored_perm {entries entries' : List (String × String)} (h : entries.Perm entries')
    (query : String) (reach : Nat) : scored query reach entries = scored query reach entries' := by
  have hsorted := List.pairwise_mergeSort scoreLe_trans scoreLe_total
  refine List.Perm.eq_of_pairwise ?_ (hsorted _) (hsorted _) ?_
  · exact fun a b _ _ => scoreLe_antisymm a b
  · exact (List.mergeSort_perm _ _).trans
      (((h.map _).filter _).trans (List.mergeSort_perm _ _).symm)

/-! ## Look-ups -/

/-- Of one kind, with the same declaration and member, the same number of candidates, or the same
suggestions. -/
inductive LookupOutcome.Alike : LookupOutcome → LookupOutcome → Prop
  | found (declaration : Declaration) (member : Option MemberOutcome) :
      Alike (.found declaration member) (.found declaration member)
  | ambiguous (candidates candidates' : List String) (total : Nat) :
      Alike (.ambiguous candidates total) (.ambiguous candidates' total)
  | notFound (suggestions : List String) : Alike (.notFound suggestions) (.notFound suggestions)

namespace Query

variable {ds ds' : List Declaration}

/-- There are no matches, the same single one, or as many in another order. -/
theorem filter_cases (h : ds.Perm ds') (p : Declaration → Bool) :
    (ds.filter p = [] ∧ ds'.filter p = []) ∨
      (∃ d, ds.filter p = [d] ∧ ds'.filter p = [d]) ∨
      ∃ a b rest a' b' rest', ds.filter p = a :: b :: rest ∧ ds'.filter p = a' :: b' :: rest' ∧
        rest.length = rest'.length := by
  have hperm := h.filter p
  match hmatch : ds.filter p with
  | [] =>
      rw [hmatch] at hperm
      exact .inl ⟨rfl, hperm.nil_eq.symm⟩
  | [d] =>
      rw [hmatch] at hperm
      exact .inr (.inl ⟨d, rfl, hperm.singleton_eq.symm⟩)
  | a :: b :: rest =>
      have hlength := hperm.length_eq
      rw [hmatch] at hlength
      match hmatch' : ds'.filter p with
      | [] =>
          rw [hmatch'] at hlength
          cases hlength
      | [_] =>
          rw [hmatch'] at hlength
          simp at hlength
      | a' :: b' :: rest' =>
          rw [hmatch'] at hlength
          refine .inr (.inr ⟨a, b, rest, a', b', rest', rfl, rfl, ?_⟩)
          simpa using hlength

/-- Suggestions do not depend on the order of the declarations. -/
theorem similarNames_perm (h : ds.Perm ds') (settings : QuerySettings) (needle : String) :
    similarNames settings ds needle = similarNames settings ds' needle := by
  rw [similarNames, similarNames, nearest, nearest, scored_perm (h.map _)]

/-- Partial matches of another order are alike. -/
theorem lookupPartial_perm (h : ds.Perm ds') (settings : QuerySettings) (needle : String)
    (member : Option String) : (lookupPartial settings ds needle member).Alike
      (lookupPartial settings ds' needle member) := by
  unfold lookupPartial
  rcases filter_cases h (isPartialMatch needle) with ⟨hnone, hnone'⟩ | ⟨d, hone, hone'⟩ |
    ⟨a, b, rest, a', b', rest', hmany, hmany', hlength⟩
  · rw [hnone, hnone', similarNames_perm h]
    exact .notFound _
  · rw [hone, hone']
    exact .found d _
  · rw [hmany, hmany']
    simp only [List.length_cons, hlength]
    exact .ambiguous _ _ _

/-- A look-up does not depend on the order of the declarations. -/
theorem lookup_perm (h : ds.Perm ds') (settings : QuerySettings) (query : String)
    (member : Option String) :
    (lookup settings ds query member).Alike (lookup settings ds' query member) := by
  have hpartial := lookupPartial_perm h settings (lowered (cleanName query)) member
  unfold lookup
  -- Anything but a single match leaves it to the simple names, then to those that match in part.
  rcases filter_cases h fun d => sameName d.qualifiedName (cleanName query) with
    ⟨hq, hq'⟩ | ⟨d, hq, hq'⟩ | ⟨_, _, _, _, _, _, hq, hq', -⟩ <;>
  rcases filter_cases h fun d => sameName d.name (cleanName query) with
    ⟨hn, hn'⟩ | ⟨e, hn, hn'⟩ | ⟨_, _, _, _, _, _, hn, hn', -⟩ <;>
  simp only [hq, hq', hn, hn'] <;>
  first
  | exact .found _ _
  | exact hpartial

/-! ## Searches -/

/-- The ranked rows of another order are the same rows. -/
theorem ranked_perm (h : ds.Perm ds') (needle : String) (filter : TypeFilter) :
    ((matchingRows ds needle filter).mergeSort (rankLe needle)).Perm
      ((matchingRows ds' needle filter).mergeSort (rankLe needle)) := by
  have hrows : (matchingRows ds needle filter).Perm (matchingRows ds' needle filter) :=
    (h.flatMap_right _).filter _
  exact (List.mergeSort_perm _ _).trans (hrows.trans (List.mergeSort_perm _ _).symm)

/-- A limit of at least the total lets all rows through. -/
theorem hits_of_total_le {query : String} {filter : TypeFilter} {limit : Nat}
    (h : (search ds query filter limit).total ≤ limit) :
    (search ds query filter limit).hits
      = (matchingRows ds (lowered (trimmed query)) filter).mergeSort
          (rankLe (lowered (trimmed query))) :=
  List.take_of_length_le h

/-- A search finds as many rows, and the same ones if its limit lets all of them through. -/
theorem search_perm (h : ds.Perm ds') (query : String) (filter : TypeFilter) (limit : Nat) :
    (search ds query filter limit).total = (search ds' query filter limit).total ∧
      ((search ds query filter limit).total ≤ limit →
        (search ds query filter limit).hits.Perm (search ds' query filter limit).hits) := by
  have hranked := ranked_perm h (lowered (trimmed query)) filter
  have htotal : (search ds query filter limit).total = (search ds' query filter limit).total :=
    hranked.length_eq
  refine ⟨htotal, ?_⟩
  intro hlimit
  rw [hits_of_total_le hlimit, hits_of_total_le (htotal ▸ hlimit)]
  exact hranked

end Query

/-! ## Indexes -/

/-- Two indexes that give the same answers. -/
structure Index.Alike (i i' : Index) : Prop where
  stats : i.stats = i'.stats
  namespaces : i.namespaceMap.keys = i'.namespaceMap.keys
  buckets : ∀ space names names', i.namespaceMap.get? space = some names →
    i'.namespaceMap.get? space = some names' → names.Perm names'
  events : i.eventMap.keys = i'.eventMap.keys
  eventMap : ((i.declarations.filter Event.isEvent).map Declaration.qualifiedName).Nodup →
    i.eventMap = i'.eventMap
  lookup : ∀ settings query member, (Query.lookup settings i.declarations query member).Alike
    (Query.lookup settings i'.declarations query member)
  search : ∀ query filter limit,
    (Query.search i.declarations query filter limit).total
        = (Query.search i'.declarations query filter limit).total ∧
      ((Query.search i.declarations query filter limit).total ≤ limit →
        (Query.search i.declarations query filter limit).hits.Perm
          (Query.search i'.declarations query filter limit).hits)

/-- **The order of discovery does not matter.**  Indexes of the same declarations in another order
have the same counts, namespaces and event names, the same names in each namespace, the same
events if no two share a name, and answer every look-up and search alike. -/
theorem Index.alike_of_perm {ds ds' : List Declaration} (h : ds.Perm ds')
    (builtAt builtAt' : Timestamp) (commit commit' branch branch' : Option String) :
    (assemble builtAt commit branch ds).Alike (assemble builtAt' commit' branch' ds') where
  stats := stats_perm h builtAt builtAt' commit commit' branch branch'
  namespaces := keys_namespaceMapOf_perm h
  buckets := fun _ _ _ hnames hnames' => get?_namespaceMapOf_perm h hnames hnames'
  events := Event.keys_mapOf_perm h
  eventMap := Event.mapOf_perm h
  lookup := Query.lookup_perm h
  search := Query.search_perm h

/-- A class. -/
def startClass : Declaration where
  name := "Start"
  space := "App"
  qualifiedName := "App\\Start"

/-- An event. -/
def savedEvent : Declaration where
  name := "SavedEvent"
  space := "App\\Event"
  qualifiedName := "App\\Event\\SavedEvent"

/-- A class and an event, in both orders. -/
theorem Index.alike_of_perm_two : [startClass, savedEvent].Perm [savedEvent, startClass] ∧
    (assemble ⟨⟨2024, 1, 2⟩, 3, 4, 0⟩ none none [startClass, savedEvent]).Alike
      (assemble ⟨⟨2025, 1, 2⟩, 3, 4, 0⟩ none none [savedEvent, startClass]) := by
  have hswap : [startClass, savedEvent].Perm [savedEvent, startClass] := .swap _ _ _
  exact ⟨hswap, alike_of_perm hswap _ _ _ _ _ _⟩

end CodeIndex
