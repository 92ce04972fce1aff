import CodeIndex.Proofs.Query.Decision
import CodeIndex.Proofs.Query.Order
import CodeIndex.Proofs.Query.Tables
import CodeIndex.Proofs.Text.Distance

/-!
# The nearest names

A look-up that finds nothing suggests names: those within reach of the query by the number of
edits, nearest first and names of one distance in alphabetical order, as many as are asked for.
Sorting brings equal items together, so dropping neighbours of one label leaves each label once,
provided a label has one distance.  For qualified names it does: the simple name is what follows
the last backslash, so a qualified name determines it.

* `mem_scored_iff` : what is ranked.
* `pairwise_dropRepeats` : what is left after repeats are dropped is in strict order.
* `Ranks.areNearest_take`, `areNearest_nearest` : the first labels of the ranking are the nearest.
* `name_of_qualify` : a qualified name determines the simple name.
* `suggestions_nearest` : what look-ups of declarations and of tables suggest.
-/

namespace CodeIndex

open Text

/-! ## Ranked labels -/

/-- A label stands `n` edits away from the query: some key it is entered under does, in lower
case. -/
def StandsAt (query : String) (entries : List (String × String)) (label : String) (n : Nat) :
    Prop :=
  ∃ key, (key, label) ∈ entries ∧ IsDistance query.toList (lowered key).toList n

/-- Nearer, or as near and in front in the alphabet. -/
def Before (a b : Nat × String) : Prop := a.1 < b.1 ∨ a.1 = b.1 ∧ a.2 < b.2

/-- The labels nearest to a query, of all that are entered: within reach, each once, as many as
are asked for or all there are, in order of distance and alphabet, and before all others. -/
structure AreNearest (query : String) (reach count : Nat) (entries : List (String × String))
    (labels : List String) : Prop where
  nodup : labels.Nodup
  length_le : labels.length ≤ count
  within : ∀ label ∈ labels, ∃ n ≤ reach, StandsAt query entries label n
  ordered : labels.Pairwise fun a b => ∀ m n, StandsAt query entries a m →
    StandsAt query entries b n → Before (m, a) (n, b)
  left_out : ∀ label n, StandsAt query entries label n → n ≤ reach → label ∉ labels →
    labels.length = count ∧
      ∀ a ∈ labels, ∀ m, StandsAt query entries a m → Before (m, a) (n, label)

/-- Every label is entered under one key. -/
def OneKey (entries : List (String × String)) : Prop :=
  ∀ label key key', (key, label) ∈ entries → (key', label) ∈ entries → key = key'

variable {query label : String} {reach count m n : Nat} {entries : List (String × String)}
  {items : List (Nat × String)}

/-- A label that is entered under one key stands at one distance. -/
theorem OneKey.standsAt_unique (h : OneKey entries) (hm : StandsAt query entries label m)
    (hn : StandsAt query entries label n) : m = n := by
  obtain ⟨key, hkey, hm⟩ := hm
  obtain ⟨key', hkey', hn⟩ := hn
  rw [h label key key' hkey hkey'] at hm
  rw [isDistance_iff.mp hm, isDistance_iff.mp hn]

/-- The scored labels are those within reach, at their least distance. -/
theorem mem_scored_iff :
    (n, label) ∈ scored query reach entries ↔ StandsAt query entries label n ∧ n ≤ reach := by
  simp only [scored, List.mem_mergeSort, List.mem_filter, List.mem_map, Prod.exists,
    Prod.mk.injEq, decide_eq_true_iff, StandsAt, isDistance_iff]
  constructor
  · rintro ⟨⟨key, _, hmem, hdistance, rfl⟩, hle⟩
    exact ⟨⟨key, hmem, hdistance.symm⟩, hle⟩
  · rintro ⟨⟨key, hmem, hdistance⟩, hle⟩
    exact ⟨⟨key, label, hmem, hdistance.symm, rfl⟩, hle⟩

/-- Scored labels ascend. -/
theorem pairwise_scored (query : String) (reach : Nat) (entries : List (String × String)) :
    (scored query reach entries).Pairwise fun a b => scoreLe a b = true :=
  List.pairwise_mergeSort scoreLe_trans scoreLe_total _

/-- Of two labels the one that scores no more comes before. -/
theorem before_of_scoreLe {a b : Nat × String} (hle : scoreLe a b = true) (hne : a.2 ≠ b.2) :
    Before a b := by
  rcases (scoreLe_iff a b).mp hle with hlt | ⟨heq, hnot⟩
  · exact .inl hlt
  · refine .inr ⟨heq, ?_⟩
    apply Classical.byContradiction
    intro hge
    exact hne (String.le_antisymm (String.not_lt.mp hnot) (String.not_lt.mp hge))

/-! ## Repeats -/

/-- What is left after dropping was there. -/
theorem dropAfter_subset {label : String} {item : Nat × String}
    (h : item ∈ dropAfter label items) : item ∈ items := by
  induction items generalizing label with
  | nil => cases h
  | cons x items ih =>
      rw [dropAfter] at h
      by_cases hx : x.2 = label
      · rw [if_pos hx] at h
        exact List.mem_cons_of_mem _ (ih h)
      · rw [if_neg hx] at h
        rcases List.mem_cons.mp h with rfl | hrest
        · exact List.mem_cons_self
        · exact List.mem_cons_of_mem _ (ih hrest)

theorem mem_of_mem_cons_dropAfter {first item : Nat × String}
    (h : item ∈ first :: dropAfter first.2 items) : item ∈ first :: items := by
  rcases List.mem_cons.mp h with rfl | hrest
  · exact List.mem_cons_self
  · exact List.mem_cons_of_mem _ (dropAfter_subset hrest)

/-- Every label that is dropped is that of an item which is kept. -/
theorem exists_label_dropAfter (first : Nat × String) {item : Nat × String}
    (h : item ∈ first :: items) : ∃ kept ∈ first :: dropAfter first.2 items, kept.2 = item.2 := by
  induction items generalizing first with
  | nil => exact ⟨item, h, rfl⟩
  | cons x items ih =>
      rw [dropAfter]
      by_cases hx : x.2 = first.2
      · rw [if_pos hx]
        rcases List.mem_cons.mp h with rfl | hrest
        · exact ⟨item, List.mem_cons_self, rfl⟩
        · rcases List.mem_cons.mp hrest with rfl | hrest
          · exact ⟨first, List.mem_cons_self, hx.symm⟩
          · exact ih first (List.mem_cons_of_mem _ hrest)
      · rw [if_neg hx]
        rcases List.mem_cons.mp h with rfl | hrest
        · exact ⟨item, List.mem_cons_self, rfl⟩
        · obtain ⟨kept, hkept, hlabel⟩ := ih x hrest
          exact ⟨kept, List.mem_cons_of_mem _ hkept, hlabel⟩

section

variable (hlabel : ∀ a ∈ items, ∀ b ∈ items, a.2 = b.2 → a = b)
  (hordered : items.Pairwise fun a b => scoreLe a b = true)

include hlabel hordered in
/-- Behind an item of another label the first label does not come again: what stands between two
equal items is equal to both. -/
theorem label_ne_of_next {first x y : Nat × String} {rest : List (Nat × String)}
    (hitems : items = first :: x :: rest) (hx : x.2 ≠ first.2) (hy : y ∈ x :: rest) :
    first.2 ≠ y.2 := by
  subst hitems
  obtain ⟨hfirst, hrest⟩ := List.pairwise_cons.mp hordered
  intro hsame
  have heq := hlabel first List.mem_cons_self y (List.mem_cons_of_mem _ hy) hsame
  subst heq
  rcases List.mem_cons.mp hy with rfl | hy
  · exact hx rfl
  · have hle := hfirst x List.mem_cons_self
    have hge := (List.pairwise_cons.mp hrest).1 first hy
    exact hx (congrArg Prod.snd (scoreLe_antisymm first x hle hge)).symm

include hlabel in
/-- Where those of one label are equal, dropping repeats loses no item. -/
theorem mem_dropRepeats_iff {item : Nat × String} : item ∈ dropRepeats items ↔ item ∈ items := by
  cases items with
  | nil => rfl
  | cons first items =>
      constructor
      · exact mem_of_mem_cons_dropAfter
      · intro hitem
        obtain ⟨kept, hkept, hsame⟩ := exists_label_dropAfter first hitem
        rw [← hlabel kept (mem_of_mem_cons_dropAfter hkept) item hitem hsame]
        exact hkept

include hlabel hordered in
/-- And what is left is in strict order. -/
theorem pairwise_dropRepeats : (dropRepeats items).Pairwise Before := by
  cases items with
  | nil => exact .nil
  | cons first items =>
      rw [dropRepeats]
      induction items generalizing first with
      | nil => exact List.pairwise_singleton _ _
      | cons x items ih =>
          obtain ⟨hfirst, hrest⟩ := List.pairwise_cons.mp hordered
          rw [dropAfter]
          by_cases hx : x.2 = first.2
          · rw [if_pos hx]
            have hsub := (List.sublist_cons_self x items).cons_cons first
            exact ih first (fun a ha b hb => hlabel a (hsub.subset ha) b (hsub.subset hb))
              (hordered.sublist hsub)
          · rw [if_neg hx]
            have htail := ih x (fun a ha b hb =>
              hlabel a (List.mem_cons_of_mem _ ha) b (List.mem_cons_of_mem _ hb)) hrest
            refine List.pairwise_cons.mpr ⟨?_, htail⟩
            intro y hy
            have hmem := mem_of_mem_cons_dropAfter hy
            exact before_of_scoreLe (hfirst y hmem)
              (label_ne_of_next hlabel hordered rfl hx hmem)

end

/-! ## The nearest labels -/

/-- A ranking of the labels within reach: all of them with their distances, in strict order. -/
structure Ranks (query : String) (reach : Nat) (entries : List (String × String))
    (ranking : List (Nat × String)) : Prop where
  mem_iff : ∀ n label, (n, label) ∈ ranking ↔ StandsAt query entries label n ∧ n ≤ reach
  ordered : ranking.Pairwise Before

namespace Ranks

variable {ranking : List (Nat × String)} (h : Ranks query reach entries ranking)
include h

/-- A shown suggestion stands at its distance. -/
theorem standsAt {item : Nat × String} (hitem : item ∈ ranking.take count) :
    StandsAt query entries item.2 item.1 :=
  ((h.mem_iff item.1 item.2).mp (List.mem_of_mem_take hitem)).1

/-- What is cut off comes after all that is left. -/
theorem before_of_mem_drop {a b : Nat × String} (ha : a ∈ ranking.take count)
    (hb : b ∈ ranking.drop count) : Before a b := by
  have hsplit : (ranking.take count ++ ranking.drop count).Pairwise Before := by
    rw [List.take_append_drop]
    exact h.ordered
  exact (List.pairwise_append.mp hsplit).2.2 a ha b hb

/-- A label within reach that is not listed was cut off. -/
theorem mem_drop_of_not_mem (hstands : StandsAt query entries label n) (hle : n ≤ reach)
    (hout : label ∉ (ranking.take count).map Prod.snd) : (n, label) ∈ ranking.drop count := by
  have hranked := (h.mem_iff n label).mpr ⟨hstands, hle⟩
  rw [← List.take_append_drop count ranking, List.mem_append] at hranked
  rcases hranked with hin | hdrop
  · exact absurd (List.mem_map_of_mem hin) hout
  · exact hdrop

/-- The first labels of a ranking are the nearest. -/
theorem areNearest_take (hkey : OneKey entries) (count : Nat) :
    AreNearest query reach count entries ((ranking.take count).map Prod.snd) where
  nodup := by
    refine List.pairwise_map.mpr (h.ordered.take.imp_of_mem ?_)
    intro a b ha hb hbefore hsame
    have hscore : a.1 = b.1 := hkey.standsAt_unique (h.standsAt ha) (hsame ▸ h.standsAt hb)
    rcases hbefore with hlt | ⟨-, hlt⟩
    · omega
    · exact String.lt_irrefl _ (hsame ▸ hlt)
  length_le := by
    rw [List.length_map, List.length_take]
    exact Nat.min_le_left _ _
  within := by
    intro label hlabel
    obtain ⟨item, hitem, rfl⟩ := List.mem_map.mp hlabel
    exact ⟨item.1, ((h.mem_iff item.1 item.2).mp (List.mem_of_mem_take hitem)).2, h.standsAt hitem⟩
  ordered := by
    refine List.pairwise_map.mpr (h.ordered.take.imp_of_mem ?_)
    intro a b ha hb hbefore m n hm hn
    rw [hkey.standsAt_unique hm (h.standsAt ha), hkey.standsAt_unique hn (h.standsAt hb)]
    exact hbefore
  left_out := by
    intro label n hstands hle hout
    have hdrop := h.mem_drop_of_not_mem hstands hle hout
    refine ⟨?_, ?_⟩
    · have hlength := List.length_pos_of_mem hdrop
      rw [List.length_drop] at hlength
      rw [List.length_map, List.length_take]
      omega
    · intro a ha m hm
      obtain ⟨item, hitem, rfl⟩ := List.mem_map.mp ha
      rw [hkey.standsAt_unique hm (h.standsAt hitem)]
      exact h.before_of_mem_drop hitem hdrop

end Ranks

/-- Items of one label are equal, for a label stands at one distance. -/
theorem OneKey.scored_inj (hkey : OneKey entries) : ∀ a ∈ scored query reach entries,
    ∀ b ∈ scored query reach entries, a.2 = b.2 → a = b := by
  rintro ⟨m, a⟩ ha ⟨n, b⟩ hb rfl
  rw [hkey.standsAt_unique (mem_scored_iff.mp ha).1 (mem_scored_iff.mp hb).1]

/-- **Ranking, dropping repeats and cutting gives the nearest labels.** -/
theorem areNearest_nearest (hkey : OneKey entries) (query : String) (reach count : Nat) :
    AreNearest query reach count entries (nearest query reach count entries) := by
  have hranks : Ranks query reach entries (dropRepeats (scored query reach entries)) := by
    constructor
    · intro n label
      rw [mem_dropRepeats_iff hkey.scored_inj, mem_scored_iff]
    · exact pairwise_dropRepeats hkey.scored_inj (pairwise_scored query reach entries)
  exact hranks.areNearest_take hkey count

/-! ## Qualified names -/

/-- The qualified name is put together from a namespace and a name without backslashes. -/
def Declaration.IsQualified (d : Declaration) : Prop :=
  d.qualifiedName = qualify d.space d.name ∧ '\\' ∉ d.name.toList

instance (d : Declaration) : Decidable d.IsQualified := inferInstanceAs (Decidable (_ ∧ _))

/-- The simple name is what follows the last backslash of the qualified name. -/
theorem takeWhile_reverse_qualify {name : String} (hname : '\\' ∉ name.toList) (space : String) :
    (qualify space name).toList.reverse.takeWhile (· != '\\') = name.toList.reverse := by
  have hall : ∀ c ∈ name.toList.reverse, (c != '\\') = true := by
    intro c hc
    rw [bne_iff_ne]
    rintro rfl
    exact hname (List.mem_reverse.mp hc)
  unfold qualify
  dsimp only
  split
  · exact List.takeWhile_eq_self_iff.mpr hall
  · rw [String.toList_ofList, List.reverse_append, List.reverse_cons, List.append_assoc,
      List.takeWhile_append_of_pos hall, List.singleton_append,
      List.takeWhile_cons_of_neg (by simp), List.append_nil]

/-- A qualified name determines the simple name. -/
theorem name_of_qualify {space space' name name' : String} (hname : '\\' ∉ name.toList)
    (hname' : '\\' ∉ name'.toList) (h : qualify space name = qualify space' name') :
    name = name' := by
  have hlast := takeWhile_reverse_qualify hname space
  rw [h, takeWhile_reverse_qualify hname' space', List.reverse_inj] at hlast
  exact String.toList_inj.mp hlast.symm

namespace Query

/-- Declarations enter every qualified name under one key, their name. -/
theorem oneKey_names {ds : List Declaration} (hds : ∀ d ∈ ds, d.IsQualified) :
    OneKey (ds.map fun d => (d.name, d.qualifiedName)) := by
  intro label key key' hkey hkey'
  obtain ⟨d, hd, heq⟩ := List.mem_map.mp hkey
  obtain ⟨e, he, heq'⟩ := List.mem_map.mp hkey'
  cases heq
  obtain ⟨hname', hlabel⟩ := Prod.mk.inj heq'
  obtain ⟨hqualified, hslash⟩ := hds d hd
  obtain ⟨hqualified', hslash'⟩ := hds e he
  have hsame : qualify d.space d.name = qualify e.space e.name := by
    rw [← hqualified, ← hqualified', hlabel]
  rw [← hname']
  exact name_of_qualify hslash hslash' hsame

/-! ## Suggestions -/

/-- Nothing is found where nothing matches, and the nearest names are suggested. -/
theorem lookup_eq_notFound_iff {settings : QuerySettings} {ds : List Declaration} {query : String}
    {member : Option String} {suggestions : List String} :
    lookup settings ds query member = .notFound suggestions ↔ matching ds query = [] ∧
      suggestions = similarNames settings ds (lowered (cleanName query)) := by
  rcases lookup_cases settings ds query member with ⟨d, hd, heq⟩ | ⟨-, heq⟩
  · have hne := List.ne_nil_of_mem (mem_matching_of_singles hd)
    simp [heq, hne]
  · rcases lookupPartial_cases settings ds query member with
      ⟨hnone, hout⟩ | ⟨d, hone, hout⟩ | ⟨hmany, hout⟩
    · simp [heq, hout, hnone, eq_comm]
    · simp [heq, hout, hone]
    · have hne : matching ds query ≠ [] := List.length_pos_iff.mp (by omega)
      simp [heq, hout, hne]

/-- What is suggested where no declaration is found. -/
theorem areNearest_of_lookup {settings : QuerySettings} {ds : List Declaration} {query : String}
    {member : Option String} {suggestions : List String} (hds : ∀ d ∈ ds, d.IsQualified)
    (h : lookup settings ds query member = .notFound suggestions) :
    AreNearest (lowered (cleanName query)) settings.maxEditDistance settings.maxSuggestions
      (ds.map fun d => (d.name, d.qualifiedName)) suggestions := by
  rw [(lookup_eq_notFound_iff.mp h).2]
  exact areNearest_nearest (oneKey_names hds) _ _ _

/-- Labels entered under themselves have one key each. -/
theorem oneKey_self (labels : List String) : OneKey (labels.map fun label => (label, label)) := by
  intro label key key' hkey hkey'
  obtain ⟨_, -, heq⟩ := List.mem_map.mp hkey
  obtain ⟨_, -, heq'⟩ := List.mem_map.mp hkey'
  cases heq
  cases heq'
  rfl

/-- Labels that are entered once are ranked once, so there are no repeats to drop. -/
theorem ranks_scored_self (query : String) (reach : Nat) {labels : List String}
    (h : labels.Nodup) : Ranks query reach (labels.map fun label => (label, label))
      (scored query reach (labels.map fun label => (label, label))) := by
  have hlabels : ((scored query reach (labels.map fun label => (label, label))).map
      Prod.snd).Nodup := by
    rw [scored]
    refine ((List.mergeSort_perm _ scoreLe).map Prod.snd).nodup_iff.mpr
      (List.Nodup.sublist (List.filter_sublist.map _) ?_)
    rw [List.map_map, List.map_map]
    simpa [Function.comp_def] using h
  refine ⟨fun _ _ => mem_scored_iff, ?_⟩
  refine ((pairwise_scored _ _ _).and (List.pairwise_map.mp hlabels)).imp ?_
  intro a b hab
  exact before_of_scoreLe hab.1 hab.2

/-- What is suggested where no table is found. -/
theorem areNearest_of_lookupTable {config : Config} {schema : SchemaIndex}
    {name echoed : String} {suggestions : List String}
    (h : lookupTable config schema name = .notFound echoed suggestions) :
    AreNearest (lowered (askedName config name)) config.query.maxEditDistance
      config.query.maxSuggestions (schema.byShortName.keys.map fun short => (short, short))
      suggestions := by
  have hsuggestions : suggestions
      = similarTables config.query schema (lowered (askedName config name)) := by
    rcases lookupTable_cases config schema name with
      ⟨_, -, hout⟩ | ⟨-, ⟨-, hout⟩ | ⟨_, -, hout⟩ | hout⟩ <;> rw [hout] at h <;> cases h
    rfl
  rw [hsuggestions]
  exact (ranks_scored_self _ _ schema.byShortName.nodup_keys).areNearest_take (oneKey_self _) _

/-- **Suggestions are the nearest names.**  Where a look-up of a declaration or of a table finds
nothing, it suggests the qualified names, or the short names, that are nearest to the query. -/
theorem suggestions_nearest :
    (∀ settings ds query member suggestions, (∀ d ∈ ds, d.IsQualified) →
        lookup settings ds query member = .notFound suggestions →
        AreNearest (lowered (cleanName query)) settings.maxEditDistance settings.maxSuggestions
          (ds.map fun d => (d.name, d.qualifiedName)) suggestions) ∧
      ∀ config schema name echoed suggestions,
        lookupSchema config schema (.table name) = .notFound echoed suggestions →
        AreNearest (lowered (askedName config name)) config.query.maxEditDistance
          config.query.maxSuggestions (schema.byShortName.keys.map fun short => (short, short))
          suggestions :=
  ⟨fun _ _ _ _ _ hds h => areNearest_of_lookup hds h,
    fun _ _ _ _ _ h => areNearest_of_lookupTable h⟩

/-- Two declarations of one name, and two others. -/
def gadgets : List Declaration := [
  { name := "Widget", space := "App", qualifiedName := "App\\Widget" },
  { name := "Widgets", space := "Lib", qualifiedName := "Lib\\Widgets" },
  { name := "Widget", space := "App", qualifiedName := "App\\Widget" },
  { name := "Gadget", space := "", qualifiedName := "Gadget" }]

/-- Two names are suggested of the three within reach, and the one table. -/
theorem suggestions_nearest_gadgets :
    (∀ d ∈ gadgets, d.IsQualified) ∧
      lookup { maxSuggestions := 2 } gadgets " \\Wodget" none
        = .notFound ["App\\Widget", "Gadget"] ∧
      AreNearest "wodget" 3 2 (gadgets.map fun d => (d.name, d.qualifiedName))
        ["App\\Widget", "Gadget"] ∧
      lookupSchema {} (.ofTables [lastUsers]) (.table "#__User5") = .notFound "#__User5" ["users"] ∧
      AreNearest "user5" 3 5 [("users", "users")] ["users"] := by
  have hds : ∀ d ∈ gadgets, d.IsQualified := by decide
  have hlookup : lookup { maxSuggestions := 2 } gadgets " \\Wodget" none
      = .notFound ["App\\Widget", "Gadget"] := by
    refine lookup_eq_notFound_iff.mpr ⟨by decide +kernel, ?_⟩
    -- In the order of the ranking, sorting has nothing to do.
    have hperm : gadgets.Perm [gadgets[0], gadgets[0], gadgets[3], gadgets[1]] := by decide
    rw [similarNames_perm hperm, similarNames, nearest, scored, List.mergeSort_of_pairwise]
    · decide +kernel
    · decide +kernel
  have htable : lookupSchema {} (.ofTables [lastUsers]) (.table "#__User5")
      = .notFound "#__User5" ["users"] := by decide +kernel
  obtain ⟨hnames, htables⟩ := suggestions_nearest
  have hnear := hnames _ gadgets _ _ _ hds hlookup
  have hnear' := htables _ _ _ _ _ htable
  have hasked : lowered (cleanName " \\Wodget") = "wodget" := by decide +kernel
  have hasked' : lowered (askedName {} "#__User5") = "user5" := by decide +kernel
  rw [hasked] at hnear
  rw [hasked'] at hnear'
  exact ⟨hds, hlookup, hnear, htable, hnear'⟩

end Query

end CodeIndex
