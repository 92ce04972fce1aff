import CodeIndex.Proofs.Query.Tables

/-!
# Short names are normal forms

A written name is some placeholders and a rest that does not start with one, and that in one way
only, also where a placeholder overlaps itself.  The short name is that rest: taking placeholders
off again or putting more of them in front leads back to it.

* `stripTablePrefix_eq_iff` : the rest behind the placeholders.
* `stripTablePrefix_normal` : short names are normal forms.
-/

namespace CodeIndex

open Text Sql

/-- The short name is the rest behind the placeholders in front of a written name. -/
theorem stripTablePrefix_eq_iff {placeholder name short : String} (h : placeholder ≠ "") :
    stripTablePrefix name placeholder = short ↔
      IsBehind placeholder.toList name.toList short.toList := by
  have hne : placeholder.toList ≠ [] := by simpa using h
  rw [← stripAll_eq_iff hne, stripTablePrefix]
  constructor
  · rintro rfl
    exact String.toList_ofList.symm
  · intro hstrip
    rw [hstrip, String.ofList_toList]

/-- **Short names are normal forms.**  Behind the placeholders in front of a name there is one rest
that does not start with one, and this is the short name.  So cutting a short name again changes
nothing, and placeholders in front of a name do not change its short name.  The empty placeholder is
never cut off.  Every table of a script has a short name that is not cut any further. -/
theorem stripTablePrefix_normal (placeholder : String) :
    (placeholder ≠ "" → ∀ name,
      (∀ short, stripTablePrefix name placeholder = short ↔
        IsBehind placeholder.toList name.toList short.toList) ∧
      ∃! short : String, IsBehind placeholder.toList name.toList short.toList) ∧
    (∀ name, stripTablePrefix (stripTablePrefix name placeholder) placeholder
      = stripTablePrefix name placeholder) ∧
    (∀ n name, stripTablePrefix (String.ofList (copies n placeholder.toList) ++ name) placeholder
      = stripTablePrefix name placeholder) ∧
    (∀ name, stripTablePrefix name "" = name) ∧
    ∀ script, ∀ t ∈ parseTables placeholder script,
      t.shortName = stripTablePrefix t.qualifiedName placeholder ∧
        stripTablePrefix t.shortName placeholder = t.shortName := by
  have htwice : ∀ name, stripTablePrefix (stripTablePrefix name placeholder) placeholder
      = stripTablePrefix name placeholder := by
    intro name
    simp only [stripTablePrefix, String.toList_ofList, stripAll_stripAll]
  refine ⟨?_, htwice, ?_, ?_, ?_⟩
  · intro hne name
    refine ⟨fun short => stripTablePrefix_eq_iff hne, stripTablePrefix name placeholder,
      (stripTablePrefix_eq_iff hne).mp rfl, ?_⟩
    intro short hshort
    exact ((stripTablePrefix_eq_iff hne).mpr hshort).symm
  · intro n name
    rw [stripTablePrefix, stripTablePrefix, String.toList_append, String.toList_ofList,
      stripAll_copies]
  · intro name
    exact String.ofList_toList
  · intro script t ht
    obtain ⟨-, hshort⟩ := names_of_mem_parseTables ht
    refine ⟨hshort, ?_⟩
    rw [hshort, htwice]

/-- A placeholder that overlaps itself is cut off from the front. -/
theorem stripTablePrefix_normal_overlap :
    "#_#" ≠ "" ∧ stripTablePrefix "#_#_#" "#_#" = "_#" ∧
      (∃! short : String, IsBehind "#_#".toList "#_#_#".toList short.toList) ∧
      stripTablePrefix "#_##_#_#" "#_#" = stripTablePrefix "_#" "#_#" := by
  have hne : "#_#" ≠ "" := by decide
  obtain ⟨hnormal, -, hcopies, -, -⟩ := stripTablePrefix_normal "#_#"
  obtain ⟨hbehind, hone⟩ := hnormal hne "#_#_#"
  refine ⟨hne, ?_, hone, hcopies 2 "_#"⟩
  exact (hbehind "_#").mpr ⟨1, rfl, by decide⟩

end CodeIndex
