import Mathlib.Data.List.Basic
import CodeIndex.Proofs.Query.Order
import CodeIndex.Proofs.Text.Pieces

/-!
# The ranking of a search

A search looks at every element of an index: a declaration, its methods, its constants, its
properties.  It shows the rows of those that contain the query, put in order: names that are the
query, names that start with it, and the rest, shorter ones first.  Rows that this order does not
tell apart stay as they stand in the index.  These three conditions, the same rows, in order, and
equals left in place, leave one list only.  So whatever also meets them is the ranking: the rows of
one kind, taken out of a ranking of all, are the ranking of that kind.

* `matchingRows_eq_found` : the rows of a search are those of the elements that match.
* `IsRanking.unique` : there is one ranking.
* `isRanking_mergeSort` : a search finds it.
* `search_ranks` : what a search gives.
* `search_filters` : a filter selects from what a search without one gives.
-/

namespace CodeIndex.Query

open Text

/-! ## Elements -/

/-- An element of an index: the row that shows it, and the texts by which it is found. -/
structure Element where
  row : SearchHit
  texts : List String

/-- The elements of a declaration in the order of the index: itself, then its methods, constants
and properties.  Doc blocks count for declarations and methods. -/
def elements (d : Declaration) : List Element :=
  ⟨⟨.cls, d.name, d, some d.kind.word⟩, d.name :: d.qualifiedName :: d.doc.toList⟩ ::
    (d.methods.map (fun m => ⟨⟨.method, m.name, d, some m.signature⟩, m.name :: m.doc.toList⟩) ++
      d.constants.map (fun c => ⟨⟨.constant, c.name, d, c.value⟩, [c.name]⟩) ++
      d.properties.map fun p => ⟨⟨.property, p.name, d, p.type⟩, [p.name]⟩)

/-- One of the texts contains the needle when it is lower-cased. -/
def Element.Matches (needle : String) (e : Element) : Prop :=
  ∃ text ∈ e.texts, needle.toList <:+: (lowered text).toList

instance (needle : String) (e : Element) : Decidable (e.Matches needle) :=
  inferInstanceAs (Decidable (∃ text ∈ e.texts, needle.toList <:+: (lowered text).toList))

/-- The rows of the elements that match and are of the kind that the filter asks for, in index
order. -/
def found (ds : List Declaration) (needle : String) (filter : TypeFilter) : List SearchHit :=
  ((ds.flatMap elements).filter fun e =>
    e.Matches needle ∧ (filter = .all ∨ filter = .only e.row.kind)).map Element.row

/-- A text holds the needle if its lower-case form does. -/
theorem holds_iff {needle text : String} :
    holds needle text = true ↔ needle.toList <:+: (lowered text).toList :=
  contains_iff

/-- A filter allows everything or one kind. -/
theorem allows_iff {filter : TypeFilter} {kind : HitKind} :
    filter.allows kind = true ↔ filter = .all ∨ filter = .only kind := by
  cases filter with
  | all => simp [TypeFilter.allows]
  | only k => simp [TypeFilter.allows]

/-- The texts of an element are its name, a second name and a doc block, as far as it has them. -/
theorem matches_eq (needle : String) (row : SearchHit) (texts : List String) :
    decide ((⟨row, texts⟩ : Element).Matches needle) = texts.any (holds needle) := by
  rw [Bool.eq_iff_iff, decide_eq_true_iff, List.any_eq_true]
  simp only [Element.Matches, holds_iff]

/-- A doc block matches if it is there and holds the needle. -/
theorem any_doc (needle : String) (doc : Option String) :
    doc.toList.any (holds needle) = holdsIn needle doc := by
  cases doc with
  | none => rfl
  | some text => simp [holdsIn]

/-- The rows of a declaration are those of its elements that match. -/
theorem rows_eq (needle : String) (d : Declaration) :
    rows needle d
      = ((elements d).filter fun e => decide (e.Matches needle)).map Element.row := by
  rw [elements, List.filter_cons, List.filter_append, List.filter_append, List.filter_map,
    List.filter_map, List.filter_map, rows, classRows, methodRows, constantRows, propertyRows]
  simp only [matches_eq, Function.comp_def, List.any_cons, List.any_nil, Bool.or_false, any_doc,
    Bool.or_assoc]
  split
  · simp only [List.map_cons, List.map_append, List.map_map, List.append_assoc, List.cons_append,
      List.nil_append]
    rfl
  · simp only [List.map_append, List.map_map, List.append_assoc, List.nil_append]
    rfl

/-- **The rows of a search are those of the elements that match.** -/
theorem matchingRows_eq_found (ds : List Declaration) (needle : String) (filter : TypeFilter) :
    matchingRows ds needle filter = found ds needle filter := by
  have hkind : ∀ e : Element, filter.allows e.row.kind
      = decide (filter = .all ∨ filter = .only e.row.kind) := by
    intro e
    rw [Bool.eq_iff_iff, decide_eq_true_iff, allows_iff]
  have hrows : ds.flatMap (rows needle)
      = ((ds.flatMap elements).filter fun e => decide (e.Matches needle)).map Element.row := by
    rw [List.filter_flatMap, List.map_flatMap]
    exact congrArg (ds.flatMap ·) (funext (rows_eq needle))
  rw [matchingRows, hrows, found, List.filter_map, List.filter_filter]
  simp only [Function.comp_def, hkind, Bool.decide_and, Bool.and_comm]

/-! ## Order -/

variable {needle : String} {a b c hit : SearchHit} {rows ranked ranked' : List SearchHit}

/-- The name of a row is the needle when it is lower-cased. -/
def IsExact (needle : String) (hit : SearchHit) : Prop := lowered hit.name = needle

/-- The name of a row starts with the needle when it is lower-cased. -/
def IsStart (needle : String) (hit : SearchHit) : Prop :=
  needle.toList <+: (lowered hit.name).toList

instance (needle : String) (hit : SearchHit) : Decidable (IsExact needle hit) :=
  inferInstanceAs (Decidable (_ = _))

instance (needle : String) (hit : SearchHit) : Decidable (IsStart needle hit) :=
  inferInstanceAs (Decidable (_ <+: _))

/-- A row may stand in front of another: exact names come first, then names that start with the
needle, then the rest; and shorter names come first among rows of one group. -/
structure NoLater (needle : String) (a b : SearchHit) : Prop where
  exact : IsExact needle b → IsExact needle a
  start : IsStart needle b → IsStart needle a
  length : (IsExact needle a ↔ IsExact needle b) → (IsStart needle a ↔ IsStart needle b) →
    a.name.utf8ByteSize ≤ b.name.utf8ByteSize

/-- Two rows are of one group and their names are of one length. -/
def Level (needle : String) (a b : SearchHit) : Prop :=
  (IsExact needle a ↔ IsExact needle b) ∧ (IsStart needle a ↔ IsStart needle b) ∧
    a.name.utf8ByteSize = b.name.utf8ByteSize

instance (needle : String) (a b : SearchHit) : Decidable (Level needle a b) :=
  inferInstanceAs (Decidable (_ ∧ _ ∧ _))

/-- The same rows in order, where rows of one level stay as they stand. -/
structure IsRanking (needle : String) (rows ranked : List SearchHit) : Prop where
  perm : ranked.Perm rows
  ordered : ranked.Pairwise (NoLater needle)
  stable : ∀ hit, ranked.filter (Level needle hit ·) = rows.filter (Level needle hit ·)

/-- An exact hit starts with the needle. -/
theorem IsExact.isStart (h : IsExact needle hit) : IsStart needle hit := by
  have hname : (lowered hit.name).toList = needle.toList := congrArg String.toList h
  exact ⟨[], by rw [List.append_nil, hname]⟩

/-- The first part of the rank tells exact hits, starts and the rest apart. -/
theorem rank_fst (needle : String) (hit : SearchHit) :
    (rank needle hit).1
      = if IsExact needle hit then 0 else if IsStart needle hit then 1 else 2 :=
  if_congr Iff.rfl rfl (if_congr startsWith_iff rfl rfl)

/-- The executable order is the relation. -/
theorem rankLe_iff : rankLe needle a b = true ↔ NoLater needle a b := by
  have ha : IsExact needle a → IsStart needle a := IsExact.isStart
  have hb : IsExact needle b → IsStart needle b := IsExact.isStart
  have hkey : rankLe needle a b = true ↔ (rank needle a).1 < (rank needle b).1 ∨
      (rank needle a).1 = (rank needle b).1 ∧ a.name.utf8ByteSize ≤ b.name.utf8ByteSize := by
    simp only [rankLe, Bool.or_eq_true, Bool.and_eq_true, decide_eq_true_iff, beq_iff_eq]
    rfl
  rw [hkey, rank_fst, rank_fst]
  constructor
  · intro h
    constructor <;> grind
  · rintro ⟨hexact, hstart, hlength⟩
    grind

/-- Two hits are level if neither is later. -/
theorem level_iff : Level needle a b ↔ NoLater needle a b ∧ NoLater needle b a := by
  constructor
  · rintro ⟨hexact, hstart, hlength⟩
    exact ⟨⟨hexact.mpr, hstart.mpr, fun _ _ => Nat.le_of_eq hlength⟩,
      ⟨hexact.mp, hstart.mp, fun _ _ => Nat.le_of_eq hlength.symm⟩⟩
  · rintro ⟨hab, hba⟩
    have hexact : IsExact needle a ↔ IsExact needle b := ⟨hba.exact, hab.exact⟩
    have hstart : IsStart needle a ↔ IsStart needle b := ⟨hba.start, hab.start⟩
    exact ⟨hexact, hstart,
      Nat.le_antisymm (hab.length hexact hstart) (hba.length hexact.symm hstart.symm)⟩

/-- The order of hits is transitive. -/
theorem rankLe_trans (needle : String) (a b c : SearchHit) (hab : rankLe needle a b = true)
    (hbc : rankLe needle b c = true) : rankLe needle a c = true := by
  simp only [rankLe, Bool.or_eq_true, Bool.and_eq_true, decide_eq_true_iff, beq_iff_eq] at *
  omega

/-- Any two hits are comparable. -/
theorem rankLe_total (needle : String) (a b : SearchHit) :
    (rankLe needle a b || rankLe needle b a) = true := by
  simp only [rankLe, Bool.or_eq_true, Bool.and_eq_true, decide_eq_true_iff, beq_iff_eq]
  omega

/-- A hit is level with itself. -/
theorem Level.refl : Level needle a a := ⟨.rfl, .rfl, rfl⟩

/-- To be level does not depend on the order. -/
theorem Level.symm (h : Level needle a b) : Level needle b a :=
  ⟨h.1.symm, h.2.1.symm, h.2.2.symm⟩

/-- Hits that are level with the same hit are level. -/
theorem Level.trans (hab : Level needle a b) (hbc : Level needle b c) : Level needle a c :=
  ⟨hab.1.trans hbc.1, hab.2.1.trans hbc.2.1, hab.2.2.trans hbc.2.2⟩

/-! ## Rankings -/

namespace IsRanking

/-- A ranking has as many rows as there are. -/
theorem length_eq (h : IsRanking needle rows ranked) : ranked.length = rows.length :=
  h.perm.length_eq

/-- Rows that are in order begin with one of the level of the first row of their ranking. -/
theorem level_head (h : IsRanking needle (b :: rows) (a :: ranked))
    (hrows : (b :: rows).Pairwise (NoLater needle)) : Level needle a b := by
  have ha : a = b ∨ a ∈ rows := List.mem_cons.mp (h.perm.mem_iff.mp List.mem_cons_self)
  have hb : b = a ∨ b ∈ ranked := List.mem_cons.mp (h.perm.mem_iff.mpr List.mem_cons_self)
  rcases ha with rfl | ha
  · exact Level.refl
  · rcases hb with rfl | hb
    · exact Level.refl
    · exact level_iff.mpr
        ⟨(List.pairwise_cons.mp h.ordered).1 b hb, (List.pairwise_cons.mp hrows).1 a ha⟩

/-- A first row that both lists share can be left out of both. -/
theorem tail (h : IsRanking needle (a :: rows) (a :: ranked)) : IsRanking needle rows ranked where
  perm := h.perm.cons_inv
  ordered := (List.pairwise_cons.mp h.ordered).2
  stable := by
    intro hit
    have hstable := h.stable hit
    rw [List.filter_cons, List.filter_cons] at hstable
    split at hstable
    · exact (List.cons.inj hstable).2
    · exact hstable

/-- Rows that are in order are their own ranking. -/
theorem eq_of_ordered (h : IsRanking needle rows ranked) (hrows : rows.Pairwise (NoLater needle)) :
    ranked = rows := by
  -- The first row of a level is the same on both sides, and the first rows are of one level.
  induction ranked generalizing rows with
  | nil => exact h.perm.nil_eq
  | cons a ranked ih =>
      cases rows with
      | nil => exact absurd h.length_eq (by simp)
      | cons b rows =>
          have hlevel := h.level_head hrows
          have hfirst := h.stable a
          rw [List.filter_cons_of_pos (by simpa using Level.refl),
            List.filter_cons_of_pos (by simpa using hlevel)] at hfirst
          obtain ⟨rfl, -⟩ := List.cons.inj hfirst
          rw [ih h.tail (List.pairwise_cons.mp hrows).2]

/-- **There is one ranking.** -/
theorem unique (h : IsRanking needle rows ranked) (h' : IsRanking needle rows ranked') :
    ranked = ranked' := by
  have hself : IsRanking needle ranked' ranked :=
    ⟨h.perm.trans h'.perm.symm, h.ordered, fun hit => (h.stable hit).trans (h'.stable hit).symm⟩
  exact hself.eq_of_ordered h'.ordered

/-- What is selected from a ranking is the ranking of what is selected from the rows. -/
theorem filter (h : IsRanking needle rows ranked) (p : SearchHit → Bool) :
    IsRanking needle (rows.filter p) (ranked.filter p) where
  perm := h.perm.filter p
  ordered := h.ordered.filter p
  stable := by
    intro hit
    rw [List.filter_comm, h.stable hit, List.filter_comm]

end IsRanking

/-- Rows of one level are in order as they stand, so sorting leaves them as they stand. -/
theorem filter_level_mergeSort (needle : String) (rows : List SearchHit) (hit : SearchHit) :
    (rows.mergeSort (rankLe needle)).filter (Level needle hit ·)
      = rows.filter (Level needle hit ·) := by
  have hordered : (rows.filter (Level needle hit ·)).Pairwise
      fun a b => rankLe needle a b = true := by
    rw [List.pairwise_filter]
    refine List.pairwise_of_forall fun a b => ?_
    intro ha hb
    have hlevel : Level needle a b := (of_decide_eq_true ha).symm.trans (of_decide_eq_true hb)
    exact rankLe_iff.mpr (level_iff.mp hlevel).1
  have hsub : (rows.filter (Level needle hit ·)).Sublist (rows.mergeSort (rankLe needle)) :=
    List.sublist_mergeSort (rankLe_trans needle) (rankLe_total needle) hordered
      List.filter_sublist
  have hsub' := hsub.filter (Level needle hit ·)
  simp only [List.filter_filter, Bool.and_self] at hsub'
  refine (hsub'.eq_of_length ?_).symm
  exact ((List.mergeSort_perm rows _).filter _).length_eq.symm

/-- **A search finds the ranking.** -/
theorem isRanking_mergeSort (needle : String) (rows : List SearchHit) :
    IsRanking needle rows (rows.mergeSort (rankLe needle)) where
  perm := List.mergeSort_perm _ _
  ordered := (List.pairwise_mergeSort (rankLe_trans needle) (rankLe_total needle) rows).imp
    rankLe_iff.mp
  stable := filter_level_mergeSort needle rows

/-! ## Searches -/

/-- What a search gives of rows and their ranking under a limit: the first ones, the number of all,
and hints where there are none. -/
structure Shows (rows ranked : List SearchHit) (limit : Nat) (results : SearchResults) : Prop where
  hits : results.hits = ranked.take (min limit results.total)
  total : results.total = rows.length
  hints : results.total = 0 → results.suggestions ≠ [] ∧ results.suggestions.Nodup
  no_hints : results.total ≠ 0 → results.suggestions = []

/-- A search shows the ranked rows up to its limit. -/
theorem shows_search (ds : List Declaration) (query : String) (filter : TypeFilter) (limit : Nat) :
    Shows (matchingRows ds (lowered (trimmed query)) filter)
      ((matchingRows ds (lowered (trimmed query)) filter).mergeSort
        (rankLe (lowered (trimmed query)))) limit (search ds query filter limit) where
  hits := List.take_eq_take_min
  total := List.length_mergeSort _
  hints := by
    intro htotal
    have hsuggestions : (search ds query filter limit).suggestions = hints query :=
      if_pos (List.isEmpty_iff_length_eq_zero.mpr htotal)
    rw [hsuggestions]
    exact ⟨hints_ne_nil query, nodup_hints query⟩
  no_hints := by
    intro htotal
    exact if_neg (fun hempty => htotal (List.isEmpty_iff_length_eq_zero.mp hempty))

/-- **What a search gives.**  Of the rows that match, it ranks all, counts all and shows the first
ones up to the limit; where none matches it gives hints, none of them twice. -/
theorem search_ranks (ds : List Declaration) (query : String) (filter : TypeFilter) :
    ∃ ranked,
      IsRanking (lowered (trimmed query)) (found ds (lowered (trimmed query)) filter) ranked ∧
      ∀ limit, Shows (found ds (lowered (trimmed query)) filter) ranked limit
        (search ds query filter limit) := by
  rw [← matchingRows_eq_found]
  exact ⟨_, isRanking_mergeSort _ _, shows_search ds query filter⟩

/-! ## Filters -/

/-- A filter for a kind takes the rows of that kind out of those that match. -/
theorem matchingRows_only (ds : List Declaration) (needle : String) (kind : HitKind) :
    matchingRows ds needle (.only kind)
      = (matchingRows ds needle .all).filter fun hit => hit.kind = kind := by
  rw [matchingRows, matchingRows, List.filter_filter]
  refine List.filter_congr fun hit _ => ?_
  rw [TypeFilter.allows, TypeFilter.allows, Bool.and_true, Bool.eq_iff_iff, beq_iff_eq,
    decide_eq_true_iff, eq_comm]

/-- A ranking of one kind of rows is that kind of the ranking. -/
theorem mergeSort_only (ds : List Declaration) (needle : String) (kind : HitKind) :
    (matchingRows ds needle (.only kind)).mergeSort (rankLe needle)
      = ((matchingRows ds needle .all).mergeSort (rankLe needle)).filter
          fun hit => hit.kind = kind := by
  refine (isRanking_mergeSort needle _).unique ?_
  rw [matchingRows_only]
  exact (isRanking_mergeSort needle _).filter _

/-- Every row is of one of the four kinds. -/
theorem length_kinds (rows : List SearchHit) :
    (rows.filter fun hit => hit.kind = .cls).length
        + (rows.filter fun hit => hit.kind = .method).length
        + (rows.filter fun hit => hit.kind = .constant).length
        + (rows.filter fun hit => hit.kind = .property).length = rows.length := by
  induction rows with
  | nil => rfl
  | cons hit rows ih =>
      simp only [List.filter_cons, List.length_cons]
      cases hit.kind <;> simp <;> omega

/-- **A filter selects from what a search without one gives.**  The rows of one kind are those of
that kind among the rows of a search for all, in the same order, where the limits let all of them
through; the four kinds add up to all; and a lower limit gives the beginning of what a higher one
gives. -/
theorem search_filters (ds : List Declaration) (query : String) :
    (∀ kind limit limit', (search ds query (.only kind) limit).total ≤ limit →
        (search ds query .all limit').total ≤ limit' →
        (search ds query (.only kind) limit).hits
          = (search ds query .all limit').hits.filter fun hit => hit.kind = kind) ∧
      (∀ limit, (search ds query (.only .cls) limit).total
          + (search ds query (.only .method) limit).total
          + (search ds query (.only .constant) limit).total
          + (search ds query (.only .property) limit).total
        = (search ds query .all limit).total) ∧
      ∀ filter limit limit', limit ≤ limit' →
        (search ds query filter limit).hits <+: (search ds query filter limit').hits := by
  refine ⟨?_, ?_, ?_⟩
  · intro kind limit limit' hkind hall
    rw [hits_of_total_le hkind, hits_of_total_le hall, mergeSort_only]
  · intro limit
    simp only [(shows_search ds query _ limit).total,
      matchingRows_only ds (lowered (trimmed query))]
    exact length_kinds _
  · intro filter limit limit' hle
    exact List.take_prefix_take_left hle

/-- A class with members of every kind, each of which contains its name. -/
def itemClass : Declaration where
  name := "Item"
  space := "App"
  qualifiedName := "App\\Item"
  methods := [{ name := "getItem" }, { name := "save", doc := some "/** Save an item */" }]
  properties := [{ name := "itemId" }]
  constants := [{ name := "ITEM" }]

/-- Of the five rows one is a property; a search for properties gives that one. -/
theorem search_filters_property :
    (search [itemClass] " Item " (.only .property) 1).total = 1 ∧
      (search [itemClass] " Item " .all 5).total = 5 ∧
      ((search [itemClass] " Item " .all 5).hits.filter fun hit => hit.kind = .property)
        = [⟨.property, "itemId", itemClass, none⟩] := by
  have hone : (search [itemClass] " Item " (.only .property) 1).total = 1 := by
    rw [(shows_search _ _ _ _).total]
    decide +kernel
  have hall : (search [itemClass] " Item " .all 5).total = 5 := by
    rw [(shows_search _ _ _ _).total]
    decide +kernel
  have hrows : matchingRows [itemClass] (lowered (trimmed " Item ")) (.only .property)
      = [⟨.property, "itemId", itemClass, none⟩] := by decide +kernel
  obtain ⟨hfilter, -, -⟩ := search_filters [itemClass] " Item "
  refine ⟨hone, hall, ?_⟩
  rw [← hfilter .property 1 5 (Nat.le_of_eq hone) (Nat.le_of_eq hall),
    hits_of_total_le (Nat.le_of_eq hone), hrows, List.mergeSort_singleton]

end CodeIndex.Query
