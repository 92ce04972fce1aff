import CodeIndex.Discovery
import CodeIndex.Proofs.Disk.LastName
import CodeIndex.Proofs.Path.Remaining

/-!
# Paths of names below a root

A path that is built from a root by appending names has the components of the root and then one for
each name.  So it tells its names, its file name is the last of them, and relative to the root it is
the names with slashes between them, whatever the root is.

* `pathOf_eq_join` : the names are appended as one relative path.
* `relativeTo?_pathOf`, `components_pathOf`, `pathOf_inj` : what the path says.
* `hasExtension_pathOf` : its extension is that of its last name.
* `exists_steps_pathOf` : its steps are those of the root, and then its names.
-/

namespace CodeIndex

open Text CodeIndex.Path

/-- A text that may name what stands in a directory. -/
structure IsName (name : String) : Prop where
  not_trivial : isTrivial name.toList = false
  not_up : name.toList ≠ ['.', '.']
  no_slash : '/' ∉ name.toList
  no_zero : ∀ c ∈ name.toList, c.toNat ≠ 0

/-- A name of a directory entry is no dot, no double dot, and holds no slash and no null. -/
theorem isName_iff {name : String} : IsName name ↔ isTrivial name.toList = false ∧
    name.toList ≠ ['.', '.'] ∧ '/' ∉ name.toList ∧ ∀ c ∈ name.toList, c.toNat ≠ 0 :=
  ⟨fun h => ⟨h.1, h.2, h.3, h.4⟩, fun h => ⟨h.1, h.2.1, h.2.2.1, h.2.2.2⟩⟩

/-- The name has one of the extensions: behind its last dot, which does not stand in front, there is
the extension, in any case of the ASCII letters. -/
def HasEnding (extensions : List String) (name : String) : Prop :=
  ∃ stem ending, name.toList = stem ++ '.' :: ending ∧ stem ≠ [] ∧ '.' ∉ ending ∧
    ∃ extension ∈ extensions, extension.toList.map asciiLower = ending.map asciiLower

namespace Path

/-- The extension of a path is that of its file name. -/
theorem extension?_eq (path : String) : extension? path
    = (fileName? path).bind fun name => (splitExtension name.toList).2.map String.ofList := by
  rw [extension?, fileName?, Option.bind_map]
  congr 1
  funext parts
  simp

/-- The extension stands behind the last dot, and something in front of it. -/
theorem splitExtension_eq_some_iff {name ending : List Char} :
    (splitExtension name).2 = some ending ↔
      ∃ stem, name = stem ++ '.' :: ending ∧ stem ≠ [] ∧ '.' ∉ ending := by
  rw [splitExtension]
  cases hsplit : splitLast? '.' name with
  | none =>
      refine iff_of_false (by simp) ?_
      rintro ⟨stem, rfl, -⟩
      exact splitLast?_eq_none_iff.mp hsplit (by simp)
  | some parts =>
      obtain ⟨before, after⟩ := parts
      have hcut : ∀ stem ending, name = stem ++ '.' :: ending ∧ '.' ∉ ending →
          stem = before ∧ ending = after := by
        intro stem ending hparts
        have hsame := splitLast?_eq_some_iff.mpr hparts
        rw [hsplit, Option.some.injEq, Prod.mk.injEq] at hsame
        exact ⟨hsame.1.symm, hsame.2.symm⟩
      obtain ⟨hname, hout⟩ := splitLast?_eq_some_iff.mp hsplit
      cases before with
      | nil =>
          refine iff_of_false (by simp) ?_
          rintro ⟨stem, hstem, hne, hending⟩
          exact hne (hcut stem ending ⟨hstem, hending⟩).1
      | cons c before =>
          refine ⟨?_, ?_⟩
          · intro h
            cases h
            exact ⟨_, hname, List.cons_ne_nil _ _, hout⟩
          · rintro ⟨stem, hstem, -, hending⟩
            exact congrArg some (hcut stem ending ⟨hstem, hending⟩).2.symm

/-- A path with a file name has one of the extensions exactly if its file name has. -/
theorem hasExtension_iff {extensions : List String} {path name : String}
    (hname : fileName? path = some name) :
    hasExtension extensions path = true ↔ HasEnding extensions name := by
  have hextension : extension? path = (splitExtension name.toList).2.map String.ofList := by
    rw [extension?_eq, hname]
    rfl
  rw [hasExtension, hextension]
  cases hsplit : (splitExtension name.toList).2 with
  | none =>
      refine iff_of_false (by simp) ?_
      rintro ⟨stem, ending, hstem, hne, hout, -⟩
      have hsome := splitExtension_eq_some_iff.mpr ⟨stem, hstem, hne, hout⟩
      rw [hsplit] at hsome
      cases hsome
  | some ending =>
      have hany : (extensions.any fun e => sameName e (String.ofList ending)) = true ↔
          ∃ extension ∈ extensions,
            extension.toList.map asciiLower = ending.map asciiLower := by
        simp [sameName, sameIgnoringCase]
      show (extensions.any fun e => sameName e (String.ofList ending)) = true ↔ _
      rw [hany]
      constructor
      · intro hsame
        obtain ⟨stem, hstem, hne, hout⟩ := splitExtension_eq_some_iff.mp hsplit
        exact ⟨stem, ending, hstem, hne, hout, hsame⟩
      · rintro ⟨stem, other, hstem, hne, hout, hsame⟩
        have hother := splitExtension_eq_some_iff.mpr ⟨stem, hstem, hne, hout⟩
        rw [hsplit, Option.some.injEq] at hother
        rwa [hother]

end Path

namespace Walk

variable {root name : String} {front : List (List Char)} {names : List String}

/-! ## The pieces of the path -/

/-- A name is one piece. -/
theorem splitAt_name (h : IsName name) : splitAt '/' name.toList = [name.toList] :=
  splitAt_of_not_mem h.no_slash

/-- A name is not empty. -/
theorem toList_ne_nil (h : IsName name) : name.toList ≠ [] := by
  intro hnil
  have htrivial := h.not_trivial
  rw [hnil] at htrivial
  cases htrivial

/-- A path that starts with a name is relative. -/
theorem isAbsolute_eq_false {p : String} {rest : List (List Char)} (h : IsName name)
    (hp : splitAt '/' p.toList = name.toList :: rest) : isAbsolute p = false := by
  rw [isAbsolute, Bool.eq_false_iff, Ne, Disk.startsWith_slash_iff hp]
  exact fun hfirst => toList_ne_nil h hfirst.1

/-- The pieces of a path that does not end in a slash stand in front of those of a path joined to
it. -/
theorem splitAt_join_of_name (h : IsName name)
    (hroot : splitAt '/' root.toList = front ++ [name.toList]) {p : String}
    (hp : isAbsolute p = false) :
    splitAt '/' (Path.join root p).toList = front ++ [name.toList] ++ splitAt '/' p.toList := by
  have hne : root ≠ "" := by
    rintro rfl
    have hlast := congrArg List.getLast? hroot
    rw [List.getLast?_concat] at hlast
    exact toList_ne_nil h (Option.some.inj hlast).symm
  obtain ⟨other, -, ⟨-, hpieces⟩ | ⟨hend, -⟩, hjoin⟩ := exists_front hne
  · rw [hjoin p hp, ← hpieces, hroot]
  · have hlast := Disk.getLast?_of_endsWith hend
    rw [hroot, List.getLast?_concat] at hlast
    exact absurd (Option.some.inj hlast) (toList_ne_nil h)

/-- The pieces of the path are those in front of whatever is joined to the root, and then its
names. -/
theorem splitAt_pathOf (hnames : ∀ name ∈ names, IsName name) (hne : names ≠ [])
    (hjoin : ∀ p, isAbsolute p = false →
      splitAt '/' (Path.join root p).toList = front ++ splitAt '/' p.toList) :
    splitAt '/' (pathOf root names).toList = front ++ names.map String.toList := by
  induction names generalizing root front with
  | nil => exact absurd rfl hne
  | cons name names ih =>
      obtain ⟨hname, hnames⟩ := List.forall_mem_cons.mp hnames
      have hfirst : splitAt '/' (Path.join root name).toList = front ++ [name.toList] := by
        rw [hjoin name (isAbsolute_eq_false hname (splitAt_name hname)), splitAt_name hname]
      show splitAt '/' (pathOf (Path.join root name) names).toList = _
      by_cases hmore : names = []
      · subst hmore
        exact hfirst
      · rw [ih hnames hmore fun p hp => splitAt_join_of_name hname hfirst hp, List.append_assoc]
        rfl

/-- Names joined by slashes are split back. -/
theorem splitAt_joinWith (hnames : ∀ name ∈ names, IsName name) (hne : names ≠ []) :
    splitAt '/' (joinWith "/" names).toList = names.map String.toList := by
  rw [joinWith, String.toList_ofList]
  refine splitAt_join (by simpa using hne) ?_
  intro piece hpiece
  obtain ⟨name, hname, rfl⟩ := List.mem_map.mp hpiece
  exact (hnames name hname).no_slash

/-- The names with slashes between them are a relative path. -/
theorem isAbsolute_joinWith (hnames : ∀ name ∈ names, IsName name) (hne : names ≠ []) :
    isAbsolute (joinWith "/" names) = false := by
  obtain ⟨name, rest, rfl⟩ := List.exists_cons_of_ne_nil hne
  exact isAbsolute_eq_false (hnames name List.mem_cons_self) (splitAt_joinWith hnames hne)

/-- Appending the names one after the other is joining them as one relative path. -/
theorem pathOf_eq_join (hroot : root ≠ "") (hnames : ∀ name ∈ names, IsName name)
    (hne : names ≠ []) : pathOf root names = Path.join root (joinWith "/" names) := by
  obtain ⟨front, -, -, hjoin⟩ := exists_front hroot
  rw [← String.toList_inj, ← join_splitAt '/' (pathOf root names).toList,
    ← join_splitAt '/' (Path.join root (joinWith "/" names)).toList,
    splitAt_pathOf hnames hne hjoin, hjoin _ (isAbsolute_joinWith hnames hne),
    splitAt_joinWith hnames hne]

/-- Names are pieces that a path keeps. -/
theorem bare_names (hnames : ∀ name ∈ names, IsName name) : Bare (names.map String.toList) where
  head := by
    intro piece hpiece
    obtain ⟨name, hname, rfl⟩ := List.mem_map.mp (List.mem_of_head? hpiece)
    exact (hnames name hname).not_trivial
  last := by
    intro piece hpiece
    obtain ⟨name, hname, rfl⟩ := List.mem_map.mp (List.mem_of_getLast? hpiece)
    exact (hnames name hname).not_trivial

/-! ## What the path says -/

/-- Relative to the root it is the names with slashes between them. -/
theorem relativeTo?_pathOf (hroot : root ≠ "") (hnames : ∀ name ∈ names, IsName name)
    (hne : names ≠ []) :
    relativeTo? (pathOf root names) root = some (joinWith "/" names) := by
  have hpieces := splitAt_joinWith hnames hne
  have htrim : trimTrivial (splitAt '/' (joinWith "/" names).toList)
      = splitAt '/' (joinWith "/" names).toList := by
    rw [hpieces]
    simpa using trimTrivial_of_bare idle_nil (bare_names hnames) idle_nil
  rw [relativeTo?_of_extends hroot (isAbsolute_joinWith hnames hne)
    (.inl (pathOf_eq_join hroot hnames hne)), htrim, join_splitAt, String.ofList_toList]

/-- Behind the components of the root stands one for each name. -/
theorem components_pathOf (hroot : root ≠ "") (hnames : ∀ name ∈ names, IsName name) :
    components (pathOf root names)
      = components root ++ names.map fun name => .named name.toList := by
  by_cases hne : names = []
  · simp [hne, pathOf]
  · have hremaining := (relativeTo?_eq_some_iff hroot).mp (relativeTo?_pathOf hroot hnames hne)
    have hbare := bare_names hnames
    rw [← splitAt_joinWith hnames hne] at hbare
    rw [hremaining.components_eq hroot, components_of_bare hbare, splitAt_joinWith hnames hne]
    congr 1
    clear hbare hremaining hne
    induction names with
    | nil => rfl
    | cons name names ih =>
        obtain ⟨hname, hnames⟩ := List.forall_mem_cons.mp hnames
        rw [List.map_cons, List.map_cons, inner_cons hname.not_trivial, ih hnames, component,
          if_neg (by simpa using hname.not_up)]

/-- It tells its names. -/
theorem pathOf_inj (hroot : root ≠ "") {names' : List String}
    (hnames : ∀ name ∈ names, IsName name) (hnames' : ∀ name ∈ names', IsName name)
    (h : pathOf root names = pathOf root names') : names = names' := by
  have hsame := congrArg components h
  rw [components_pathOf hroot hnames, components_pathOf hroot hnames',
    List.append_cancel_left_eq] at hsame
  refine (List.map_inj_right ?_).mp hsame
  intro name name' heq
  exact String.toList_inj.mp (Component.named.inj heq)

/-- Its file name is the last name. -/
theorem fileName?_pathOf (hroot : root ≠ "") (hnames : ∀ name ∈ names, IsName name)
    (hlast : names.getLast? = some name) : fileName? (pathOf root names) = some name := by
  obtain ⟨above, rfl⟩ := List.getLast?_eq_some_iff.mp hlast
  refine fileName?_eq_some_iff.mpr ⟨components root ++ above.map fun name => .named name.toList, ?_⟩
  rw [components_pathOf hroot hnames, List.map_append, ← List.append_assoc]
  rfl

/-- The last name decides about the extension of the path. -/
theorem hasExtension_pathOf (hroot : root ≠ "") (hnames : ∀ name ∈ names, IsName name)
    {extensions : List String} (hlast : names.getLast? = some name) :
    hasExtension extensions (pathOf root names) = true ↔ HasEnding extensions name :=
  hasExtension_iff (fileName?_pathOf hroot hnames hlast)

/-! ## The way of the path -/

/-- Every name is one step of a walk. -/
theorem filterMap_step?_names (hnames : ∀ name ∈ names, IsName name) :
    (names.map String.toList).filterMap Disk.step? = names.map .named := by
  induction names with
  | nil => rfl
  | cons name names ih =>
      obtain ⟨hname, hnames⟩ := List.forall_mem_cons.mp hnames
      have hstep := Disk.step?_of_not_idle hname.not_trivial hname.not_up
      rw [String.ofList_toList] at hstep
      rw [List.map_cons, List.map_cons, List.filterMap_cons_some hstep, ih hnames]

/-- The steps of the path are those of the root, but for a slash at its end, and then its names. -/
theorem exists_steps_pathOf (hroot : root ≠ "") : ∃ way,
    (Disk.steps root = way ∨ Disk.steps root = way ++ [.slash]) ∧
      ∀ names, (∀ name ∈ names, IsName name) → names ≠ [] →
        Disk.steps (pathOf root names) = way ++ names.map .named := by
  obtain ⟨front, hfront, hpieces, hjoin⟩ := exists_front hroot
  obtain ⟨first, inside, rfl⟩ := List.exists_cons_of_ne_nil hfront
  have hnil := splitAt_ne_singleton_nil (mt String.toList_eq_nil_iff.mp hroot)
  have hroots : startsWith ['/'] root.toList = true ↔ first = [] := by
    rcases hpieces with ⟨-, hpieces⟩ | ⟨-, hpieces⟩
    · rw [hpieces] at hnil
      rw [Disk.startsWith_slash_iff hpieces]
      refine and_iff_left_of_imp ?_
      rintro rfl rfl
      exact hnil rfl
    · rw [List.cons_append] at hpieces
      simp [Disk.startsWith_slash_iff hpieces]
  refine ⟨(if first = [] then [.root] else []) ++ (first :: inside).filterMap Disk.step?, ?_, ?_⟩
  · rcases hpieces with ⟨hend, hpieces⟩ | ⟨hend, hpieces⟩
    · left
      simp only [Disk.steps, hroots, hend, hpieces, Bool.false_eq_true, if_false, List.append_nil]
    · right
      have hlast : [[]].filterMap Disk.step? = [] := rfl
      simp only [Disk.steps, hroots, hend, hpieces, if_true, List.filterMap_append, hlast,
        List.append_nil]
  · intro names hnames hne
    have hpath := splitAt_pathOf hnames hne hjoin
    have hstart : startsWith ['/'] (pathOf root names).toList = true ↔ first = [] := by
      rw [List.cons_append] at hpath
      simp [Disk.startsWith_slash_iff hpath, hne]
    have hend : endsWith ['/'] (pathOf root names).toList = false := by
      rw [Bool.eq_false_iff]
      intro hend
      have hlast := Disk.getLast?_of_endsWith hend
      obtain ⟨name, hname⟩ := Option.ne_none_iff_exists'.mp (mt List.getLast?_eq_none_iff.mp hne)
      rw [hpath, List.getLast?_append, List.getLast?_map, hname] at hlast
      exact toList_ne_nil (hnames name (List.mem_of_getLast? hname)) (Option.some.inj hlast)
    simp only [Disk.steps, hstart, hend, hpath, List.filterMap_append,
      filterMap_step?_names hnames, Bool.false_eq_true, if_false, List.append_nil,
      List.append_assoc]

end Walk

end CodeIndex
