import CodeIndex.Query.Lookup
import CodeIndex.Proofs.Text.LetterCase
import CodeIndex.Proofs.Text.Trim

/-!
# What a look-up decides

A look-up chooses among the declarations whose simple or qualified name contains the query.  It
tries the names that are the query first, up to the case of ASCII letters, and only then counts
those that contain it in full lower case.  A name that is the query has the lower-case form of the
query, so it contains it, and a declaration that is singled out is always one of those counted: an
exact match cannot be lost, whatever the text.

* `mem_matching_of_singles` : a declaration that is singled out matches.
* `lookup_cases`, `lookupPartial_cases` : everything a look-up can do.
* `lookup_decides` : the outcome as the matches decide it.
* `lookup_reaches` : a qualified name of its own reaches its declaration, however it is written.
-/

namespace CodeIndex

/-- Every text occurs in itself. -/
theorem occursIn_self (s : String) : occursIn s s = true := by
  rw [occursIn]
  cases s.toList with
  | nil => rfl
  | cons c cs =>
      have hprefix : Text.startsWith (c :: cs) (c :: cs) = true :=
        List.isPrefixOf_iff_prefix.mpr (List.prefix_refl _)
      rw [Text.contains, hprefix, Bool.true_or]

namespace Query

open Text

variable {settings : QuerySettings} {ds : List Declaration} {query : String}
  {member : Option String} {d e : Declaration}

/-! ## Matches -/

/-- The declarations whose simple or qualified name contains the query, in index order. -/
def matching (ds : List Declaration) (query : String) : List Declaration :=
  ds.filter (isPartialMatch (lowered (cleanName query)))

/-- The declarations whose qualified name is the query. -/
def fullyNamed (ds : List Declaration) (query : String) : List Declaration :=
  ds.filter fun d => sameName d.qualifiedName (cleanName query)

/-- The declarations whose simple name is the query. -/
def simplyNamed (ds : List Declaration) (query : String) : List Declaration :=
  ds.filter fun d => sameName d.name (cleanName query)

/-- A query singles a declaration out as the only one of that qualified name or, where the query
is not the qualified name of just one, as the only one of that simple name. -/
def Singles (ds : List Declaration) (query : String) (d : Declaration) : Prop :=
  fullyNamed ds query = [d] ∨ (fullyNamed ds query).length ≠ 1 ∧ simplyNamed ds query = [d]

/-- A name contains whatever is the same up to the case of ASCII letters. -/
theorem holds_of_sameName {name text : String} (h : sameName text name = true) :
    holds (lowered name) text = true := by
  rw [holds, lowered_congr h]
  exact occursIn_self _

/-- A partial match holds the text in one of its two names. -/
theorem isPartialMatch_iff {needle : String} :
    isPartialMatch needle d = true ↔
      holds needle d.name = true ∨ holds needle d.qualifiedName = true := by
  rw [isPartialMatch, Bool.or_eq_true]

/-- What has the full name matches. -/
theorem mem_matching_of_mem_fullyNamed (h : d ∈ fullyNamed ds query) : d ∈ matching ds query := by
  obtain ⟨hmem, hname⟩ := List.mem_filter.mp h
  exact List.mem_filter.mpr ⟨hmem, isPartialMatch_iff.mpr (.inr (holds_of_sameName hname))⟩

/-- What has the simple name matches. -/
theorem mem_matching_of_mem_simplyNamed (h : d ∈ simplyNamed ds query) :
    d ∈ matching ds query := by
  obtain ⟨hmem, hname⟩ := List.mem_filter.mp h
  exact List.mem_filter.mpr ⟨hmem, isPartialMatch_iff.mpr (.inl (holds_of_sameName hname))⟩

/-- A declaration that is singled out matches. -/
theorem mem_matching_of_singles (h : Singles ds query d) : d ∈ matching ds query := by
  rcases h with hfull | ⟨-, hsimple⟩
  · exact mem_matching_of_mem_fullyNamed (hfull ▸ List.mem_singleton_self d)
  · exact mem_matching_of_mem_simplyNamed (hsimple ▸ List.mem_singleton_self d)

/-- No query singles out two declarations. -/
theorem Singles.unique (hd : Singles ds query d) (he : Singles ds query e) : d = e := by
  rcases hd with hd | ⟨hd, hd'⟩ <;> rcases he with he | ⟨he, he'⟩
  · rw [hd, List.singleton_inj] at he
    exact he
  · rw [hd] at he
    exact absurd rfl he
  · rw [he] at hd
    exact absurd rfl hd
  · rw [hd', List.singleton_inj] at he'
    exact he'

/-! ## Outcomes -/

/-- A look-up finds the declaration that is singled out. -/
theorem lookup_of_singles (h : Singles ds query d) :
    lookup settings ds query member = .found d (memberOf d member) := by
  rw [lookup]
  rcases h with hfull | ⟨hfull, hsimple⟩
  · rw [fullyNamed] at hfull
    simp only [hfull]
  · rw [fullyNamed] at hfull
    rw [simplyNamed] at hsimple
    simp only [hsimple]
    split
    · rename_i heq
      rw [heq] at hfull
      exact absurd rfl hfull
    · rfl

/-- Without one it goes on with partial matches. -/
theorem lookup_of_not_singles (h : ∀ d, ¬Singles ds query d) :
    lookup settings ds query member
      = lookupPartial settings ds (lowered (cleanName query)) member := by
  rw [lookup]
  split
  · rename_i d hfull
    exact absurd (.inl hfull) (h d)
  · rename_i hfull
    split
    · rename_i d hsimple
      refine absurd (.inr ⟨?_, hsimple⟩) (h d)
      intro hlength
      obtain ⟨e, he⟩ := List.length_eq_one_iff.mp hlength
      exact hfull e he
    · rfl

/-- A look-up takes the declaration that is singled out, or decides among those that match. -/
theorem lookup_cases (settings : QuerySettings) (ds : List Declaration) (query : String)
    (member : Option String) :
    (∃ d, Singles ds query d ∧ lookup settings ds query member = .found d (memberOf d member)) ∨
      (∀ d, ¬Singles ds query d) ∧ lookup settings ds query member
        = lookupPartial settings ds (lowered (cleanName query)) member := by
  by_cases h : ∃ d, Singles ds query d
  · obtain ⟨d, hd⟩ := h
    exact .inl ⟨d, hd, lookup_of_singles hd⟩
  · rw [not_exists] at h
    exact .inr ⟨h, lookup_of_not_singles h⟩

/-- What is decided among the declarations that match. -/
theorem lookupPartial_cases (settings : QuerySettings) (ds : List Declaration) (query : String)
    (member : Option String) :
    (matching ds query = [] ∧
        lookupPartial settings ds (lowered (cleanName query)) member
          = .notFound (similarNames settings ds (lowered (cleanName query)))) ∨
      (∃ d, matching ds query = [d] ∧
        lookupPartial settings ds (lowered (cleanName query)) member
          = .found d (memberOf d member)) ∨
      2 ≤ (matching ds query).length ∧
        lookupPartial settings ds (lowered (cleanName query)) member
          = .ambiguous (((matching ds query).take settings.maxAmbiguous).map
              Declaration.qualifiedName) (matching ds query).length := by
  rw [matching, lookupPartial]
  match ds.filter (isPartialMatch (lowered (cleanName query))) with
  | [] => exact .inl ⟨rfl, rfl⟩
  | [d] => exact .inr (.inl ⟨d, rfl, rfl⟩)
  | d :: e :: rest => exact .inr (.inr ⟨by simp, rfl⟩)

/-- What the matches of a query say about an outcome. -/
structure Decides (settings : QuerySettings) (ds : List Declaration) (query : String)
    (member : Option String) (outcome : LookupOutcome) : Prop where
  /-- Nothing is found where nothing matches. -/
  notFound_iff : (∃ suggestions, outcome = .notFound suggestions) ↔ matching ds query = []
  /-- A single match is found. -/
  single : ∀ d, matching ds query = [d] → outcome = .found d (memberOf d member)
  /-- What is found matches. -/
  mem_of_found : ∀ d m, outcome = .found d m → d ∈ matching ds query
  /-- Of several matches the one that is singled out is found, and no other. -/
  found_iff : 2 ≤ (matching ds query).length →
    ∀ d, (∃ m, outcome = .found d m) ↔ Singles ds query d
  /-- Several matches of which none is singled out are counted, and the first ones listed. -/
  ambiguous : 2 ≤ (matching ds query).length → (∀ d, ¬Singles ds query d) →
    outcome = .ambiguous
      (((matching ds query).take (min settings.maxAmbiguous (matching ds query).length)).map
        Declaration.qualifiedName) (matching ds query).length
  /-- No more are listed than are counted. -/
  listed_le : ∀ candidates total, outcome = .ambiguous candidates total →
    candidates.length ≤ total

/-- A declaration that is singled out is the outcome that the matches ask for. -/
theorem decides_of_singles (h : Singles ds query d) :
    Decides settings ds query member (.found d (memberOf d member)) where
  notFound_iff := by
    constructor
    · rintro ⟨suggestions, heq⟩
      cases heq
    · intro hnone
      have hmem := mem_matching_of_singles h
      rw [hnone] at hmem
      cases hmem
  single := by
    intro e he
    have hmem := mem_matching_of_singles h
    rw [he, List.mem_singleton] at hmem
    rw [hmem]
  mem_of_found := by
    intro e m heq
    cases heq
    exact mem_matching_of_singles h
  found_iff := by
    intro _ e
    constructor
    · rintro ⟨m, heq⟩
      cases heq
      exact h
    · intro he
      rw [h.unique he]
      exact ⟨_, rfl⟩
  ambiguous := fun _ hnone => absurd h (hnone d)
  listed_le := by
    intro candidates total heq
    cases heq

/-- Where none is singled out, the count of the matches decides. -/
theorem decides_lookupPartial (h : ∀ d, ¬Singles ds query d) :
    Decides settings ds query member
      (lookupPartial settings ds (lowered (cleanName query)) member) := by
  rcases lookupPartial_cases settings ds query member with
    ⟨hnone, heq⟩ | ⟨d, hone, heq⟩ | ⟨hmany, heq⟩
  · rw [heq]
    refine ⟨?_, ?_, ?_, ?_, ?_, ?_⟩ <;> simp [hnone]
  · rw [heq]
    refine ⟨?_, ?_, ?_, ?_, ?_, ?_⟩ <;> simp +contextual [hone]
  · have hne : matching ds query ≠ [] := List.length_pos_iff.mp (by omega)
    have hsingle : ∀ d, matching ds query ≠ [d] := by
      intro d hd
      rw [hd, List.length_singleton] at hmany
      omega
    have htake := List.take_eq_take_min (l := matching ds query) (i := settings.maxAmbiguous)
    rw [heq]
    refine ⟨by simp [hne], by simp [hsingle], by simp, by simp [h], ?_, ?_⟩
    · intro _ _
      rw [← htake]
    · intro candidates total hout
      cases hout
      rw [List.length_map, List.length_take]
      exact Nat.min_le_right _ _

/-- **A look-up decides by the declarations that match.**  Nothing is found exactly when none
does; a single one is found; of several the one singled out by its qualified name, or by its simple
name, is found; otherwise they are counted, and the first ones listed in index order. -/
theorem lookup_decides (settings : QuerySettings) (ds : List Declaration) (query : String)
    (member : Option String) :
    Decides settings ds query member (lookup settings ds query member) := by
  rcases lookup_cases settings ds query member with ⟨d, hd, heq⟩ | ⟨hnone, heq⟩
  · rw [heq]
    exact decides_of_singles hd
  · rw [heq]
    exact decides_lookupPartial hnone

/-! ## Qualified names -/

/-- A name that starts with no blank and no backslash, and ends with no blank. -/
structure IsBare (name : String) : Prop where
  first : ∀ c ∈ name.toList.head?, isBlank c = false ∧ c ≠ '\\'
  last : ∀ c ∈ name.toList.getLast?, isBlank c = false

instance (name : String) : Decidable (IsBare name) :=
  decidable_of_iff
    (name.toList.head?.all (fun c => !isBlank c && c != '\\') = true ∧
      name.toList.getLast?.all (fun c => !isBlank c) = true)
    ⟨fun ⟨hfirst, hlast⟩ =>
      ⟨by simpa [Option.all_eq_true] using hfirst, by simpa [Option.all_eq_true] using hlast⟩,
      fun ⟨hfirst, hlast⟩ =>
        ⟨by simpa [Option.all_eq_true] using hfirst, by simpa [Option.all_eq_true] using hlast⟩⟩

/-- A way to write a name in a query: in any case of ASCII letters, behind any number of
backslashes, between any blanks. -/
def Writes (query name : String) : Prop :=
  ∃ (front back : List Char) (count : Nat) (written : String),
    (∀ c ∈ front, isBlank c = true) ∧ (∀ c ∈ back, isBlank c = true) ∧
      sameName written name = true ∧
      query.toList = front ++ (List.replicate count '\\' ++ written.toList) ++ back

/-- `d` stands at one place of the list, and no declaration at another place has its qualified
name, in whatever case of ASCII letters. -/
def OwnName (ds : List Declaration) (d : Declaration) : Prop :=
  ∃ before after, ds = before ++ d :: after ∧
    ∀ e ∈ before ++ after, sameName e.qualifiedName d.qualifiedName = false

/-- A name stays bare in another letter case. -/
theorem isBare_congr {written name : String} (h : sameName written name = true)
    (hname : IsBare name) : IsBare written := by
  have hmap := sameName_iff.mp h
  constructor
  · intro c hc
    have hhead := congrArg List.head? hmap
    rw [List.head?_map, List.head?_map, hc, Option.map_some, eq_comm, Option.map_eq_some_iff]
      at hhead
    obtain ⟨c', hc', hfold⟩ := hhead
    obtain ⟨hblank, hslash⟩ := hname.first c' hc'
    refine ⟨?_, ?_⟩
    · rw [← isBlank_asciiLower c, ← hfold, isBlank_asciiLower, hblank]
    · rw [← beq_eq_false_iff_ne, ← beq_backslash_asciiLower c, ← hfold,
        beq_backslash_asciiLower c', beq_eq_false_iff_ne]
      exact hslash
  · intro c hc
    have hlast := congrArg List.getLast? hmap
    rw [List.getLast?_map, List.getLast?_map, hc, Option.map_some, eq_comm,
      Option.map_eq_some_iff] at hlast
    obtain ⟨c', hc', hfold⟩ := hlast
    rw [← isBlank_asciiLower c, ← hfold, isBlank_asciiLower, hname.last c' hc']

/-- A query asks for the name that is written in it. -/
theorem cleanName_of_writes {name : String} (hname : IsBare name) (h : Writes query name) :
    sameName (cleanName query) name = true := by
  obtain ⟨front, back, count, written, hfront, hback, hsame, htext⟩ := h
  have hbare := isBare_congr hsame hname
  have hslash : isBlank '\\' = false := by decide
  have htrim : trim query.toList = List.replicate count '\\' ++ written.toList := by
    rw [htext]
    refine trim_append_blank hfront ?_ ?_ hback
    · intro c hc
      cases count with
      | zero => exact (hbare.first c hc).1
      | succ count =>
          cases hc
          exact hslash
    · intro c hc
      rw [List.getLast?_append, Option.or_eq_some_iff] at hc
      rcases hc with hc | ⟨-, hc⟩
      · exact hbare.last c hc
      · rw [List.eq_of_mem_replicate (List.mem_of_getLast? hc)]
        exact hslash
  have hdrop : written.toList.dropWhile (· == '\\') = written.toList := by
    cases hw : written.toList with
    | nil => rfl
    | cons c cs =>
        have hne : c ≠ '\\' := (hbare.first c (by rw [hw]; rfl)).2
        exact List.dropWhile_cons_of_neg (by simpa using hne)
  have hclean : cleanName query = written := by
    rw [cleanName, htrim, List.dropWhile_append_of_pos (by simp +contextual), hdrop,
      String.ofList_toList]
  rw [hclean, hsame]

/-- A name is a way to write itself. -/
theorem writes_self (name : String) : Writes name name :=
  ⟨[], [], 0, name, by simp, by simp, sameName_refl name, by simp⟩

/-- A qualified name of its own singles its declaration out. -/
theorem OwnName.singles (h : OwnName ds d) (hbare : IsBare d.qualifiedName)
    (hquery : Writes query d.qualifiedName) : Singles ds query d := by
  obtain ⟨before, after, rfl, hother⟩ := h
  have hclean := cleanName_of_writes hbare hquery
  have hnone : ∀ l : List Declaration, (∀ e ∈ l, e ∈ before ++ after) →
      l.filter (fun e => sameName e.qualifiedName d.qualifiedName) = [] := by
    intro l hl
    rw [List.filter_eq_nil_iff]
    intro e he
    rw [hother e (hl e he)]
    exact Bool.false_ne_true
  left
  rw [fullyNamed]
  simp only [sameName_congr hclean]
  rw [List.filter_append, List.filter_cons_of_pos (by simp),
    hnone before fun e he => List.mem_append_left _ he,
    hnone after fun e he => List.mem_append_right _ he]
  rfl

/-- The candidates of an ambiguous query are qualified names of the index. -/
theorem mem_of_ambiguous {candidates : List String} {total : Nat}
    (h : lookup settings ds query member = .ambiguous candidates total) {name : String}
    (hname : name ∈ candidates) : ∃ d ∈ ds, d.qualifiedName = name := by
  rcases lookup_cases settings ds query member with ⟨d, -, heq⟩ | ⟨-, heq⟩
  · rw [heq] at h
    cases h
  · rw [heq] at h
    rcases lookupPartial_cases settings ds query member with
      ⟨-, heq⟩ | ⟨d, -, heq⟩ | ⟨-, heq⟩
    · rw [heq] at h
      cases h
    · rw [heq] at h
      cases h
    · rw [heq] at h
      cases h
      obtain ⟨d, hd, rfl⟩ := List.mem_map.mp hname
      exact ⟨d, (List.mem_filter.mp (List.mem_of_mem_take hd)).1, rfl⟩

/-- **Every declaration with a qualified name of its own is reachable** by that name, in whatever
way it is written and whatever else its simple name or the query names.  So each candidate listed
for an ambiguous query leads, looked up in its turn, to the declaration whose own name it is. -/
theorem lookup_reaches (settings : QuerySettings) (ds : List Declaration) :
    (∀ d query member, OwnName ds d → IsBare d.qualifiedName → Writes query d.qualifiedName →
        lookup settings ds query member = .found d (memberOf d member)) ∧
      ∀ query member candidates total,
        lookup settings ds query member = .ambiguous candidates total →
          ∀ name ∈ candidates, ∃ d ∈ ds, d.qualifiedName = name ∧
            (OwnName ds d → IsBare name →
              ∀ member, lookup settings ds name member = .found d (memberOf d member)) := by
  constructor
  · intro d query member hown hbare hquery
    exact lookup_of_singles (hown.singles hbare hquery)
  · intro query member candidates total hlookup name hname
    obtain ⟨d, hd, rfl⟩ := mem_of_ambiguous hlookup hname
    refine ⟨d, hd, rfl, ?_⟩
    intro hown hbare member
    exact lookup_of_singles (hown.singles hbare (writes_self _))

/-- Two classes of one simple name, and one in a namespace that is named like the first. -/
def widgets : List Declaration := [
  { name := "Widget", space := "App", qualifiedName := "App\\Widget" },
  { name := "Widget", space := "Lib", qualifiedName := "Lib\\Widget" },
  { name := "Part", space := "App\\Widget", qualifiedName := "App\\Widget\\Part" }]

/-- The name of the first class finds it, though the name of the third one contains it; the simple
name is ambiguous, and the second class is reached by its candidate. -/
theorem lookup_reaches_widgets :
    lookup {} widgets "\t\\\\app\\WIDGET " (some "save")
        = .found widgets[0] (some (.missing "save" [])) ∧
      lookup {} widgets "widget" none
        = .ambiguous ["App\\Widget", "Lib\\Widget", "App\\Widget\\Part"] 3 ∧
      ∃ d ∈ widgets, d.qualifiedName = "Lib\\Widget" ∧
        lookup {} widgets "Lib\\Widget" none = .found d none := by
  have hfirst : OwnName widgets widgets[0] := ⟨[], widgets.drop 1, rfl, by decide⟩
  have hsecond : OwnName widgets widgets[1] :=
    ⟨widgets.take 1, widgets.drop 2, rfl, by decide⟩
  have hwrites : Writes "\t\\\\app\\WIDGET " "App\\Widget" :=
    ⟨['\t'], [' '], 2, "app\\WIDGET", by decide, by decide, by decide, rfl⟩
  have hambiguous : lookup {} widgets "widget" none
      = .ambiguous ["App\\Widget", "Lib\\Widget", "App\\Widget\\Part"] 3 := by decide
  obtain ⟨hfound, hresolved⟩ := lookup_reaches {} widgets
  refine ⟨?_, hambiguous, ?_⟩
  · exact hfound _ _ (some "save") hfirst (by decide) hwrites
  · obtain ⟨d, hd, hname, hlookup⟩ := hresolved _ _ _ _ hambiguous "Lib\\Widget" (by simp)
    refine ⟨d, hd, hname, ?_⟩
    have hown : OwnName widgets d := by
      simp only [widgets, List.mem_cons, List.not_mem_nil, or_false] at hd
      rcases hd with rfl | rfl | rfl
      · exact absurd hname (by decide)
      · exact hsecond
      · exact absurd hname (by decide)
    exact hlookup hown (by decide) none

end Query

end CodeIndex
