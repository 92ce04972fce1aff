import CodeIndex.Proofs.Path.Remaining
import CodeIndex.Render.Shown

/-!
# Paths as they are shown

A path below the root is shown as what is left of it, with slashes for backslashes; any other path
is shown by its last name, or as unknown if it ends in none, so nothing of where it lies is seen.
What is left of a path does not begin with a slash.  It may begin with a backslash, and then what is
shown looks like an absolute path.

* `shownPath_of_remaining`, `shownPath_of_not_below` : the two ways of showing a path.
* `shownPath_relative` : what is shown, and when it is absolute.
-/

namespace CodeIndex.Render

open Text CodeIndex.Path

variable {path root rest : String}

/-- Below the root the rest of the path is shown, with slashes. -/
theorem shownPath_of_remaining (hroot : root ≠ "") (h : Remaining path root rest) :
    shownPath path root = String.ofList (replaceChar '\\' '/' rest.toList) := by
  rw [shownPath, h.relativeTo?_eq hroot]

/-- Elsewhere the file name is shown. -/
theorem shownPath_of_not_below (hroot : root ≠ "") (h : ¬components root <+: components path) :
    shownPath path root = (fileName? path).getD "<unknown>" := by
  have hnone : relativeTo? path root = none := by
    rw [Option.eq_none_iff_forall_ne_some]
    intro rest hrest
    exact h ((exists_remaining_iff hroot).mp ⟨rest, (relativeTo?_eq_some_iff hroot).mp hrest⟩)
  rw [shownPath, hnone]

/-- A file name, or the word for none, has no slash. -/
theorem not_mem_fileName (path : String) :
    '/' ∉ ((fileName? path).getD "<unknown>").toList := by
  cases hname : fileName? path with
  | none => decide
  | some name => exact not_mem_of_fileName? hname

/-- With slashes for backslashes, a text begins with a slash if it began with either. -/
theorem prefix_slash_replaceChar_iff {cs : List Char} :
    ['/'] <+: replaceChar '\\' '/' cs ↔ ['/'] <+: cs ∨ ['\\'] <+: cs := by
  cases cs with
  | nil => simp [replaceChar]
  | cons c cs =>
      by_cases hc : c = '\\'
      · simp [replaceChar, hc]
      · simp [replaceChar, hc, List.cons_prefix_cons, Ne.symm hc]

/-- What is left of a path is shown as an absolute path exactly if it begins with a backslash. -/
theorem isAbsolute_shownPath_of_remaining (hroot : root ≠ "") (h : Remaining path root rest) :
    isAbsolute (shownPath path root) = true ↔ ['\\'] <+: rest.toList := by
  have hslash : ¬['/'] <+: rest.toList := by
    rcases h.bare with rfl | hbare
    · simp
    · by_cases hrest : rest = ""
      · simp [hrest]
      · simpa using hbare.not_slash (mt String.toList_eq_nil_iff.mp hrest) []
  rw [shownPath_of_remaining hroot h, isAbsolute, startsWith_iff, String.toList_ofList]
  exact prefix_slash_replaceChar_iff.trans (or_iff_right hslash)

/-- **A path is shown without where the root lies**, for every path and every root that is not
empty.  Below the root, the path's components are those of the root and those of what is left of it,
which is shown with slashes for backslashes.  Elsewhere nothing with a slash is shown, but the name
that is the path's last component, or `<unknown>` if that is no name.  What is shown is an absolute
path exactly if what is left of the path begins with a backslash. -/
theorem shownPath_relative (hroot : root ≠ "") (path : String) :
    (components root <+: components path →
      ∃ rest, Remaining path root rest ∧ components path = components root ++ components rest) ∧
    (∀ rest, Remaining path root rest →
      shownPath path root = String.ofList (replaceChar '\\' '/' rest.toList)) ∧
    (¬components root <+: components path →
      '/' ∉ (shownPath path root).toList ∧
      (∀ front name, components path = front ++ [.named name] →
        shownPath path root = String.ofList name) ∧
      ((∀ front name, components path ≠ front ++ [.named name]) →
        shownPath path root = "<unknown>")) ∧
    (isAbsolute (shownPath path root) = true ↔
      ∃ rest, Remaining path root rest ∧ ['\\'] <+: rest.toList) := by
  refine ⟨fun hbelow => ?_, fun rest => shownPath_of_remaining hroot, fun hbelow => ?_, ?_⟩
  · obtain ⟨rest, hrest⟩ := (exists_remaining_iff hroot).mpr hbelow
    exact ⟨rest, hrest, hrest.components_eq hroot⟩
  · rw [shownPath_of_not_below hroot hbelow]
    refine ⟨not_mem_fileName path, fun front name hname => ?_, fun hnone => ?_⟩
    · rw [fileName?_eq_some_iff.mpr ⟨front, by rw [String.toList_ofList]; exact hname⟩]
      rfl
    · have hfile : fileName? path = none := by
        rw [Option.eq_none_iff_forall_ne_some]
        intro name hname
        obtain ⟨front, hfront⟩ := fileName?_eq_some_iff.mp hname
        exact hnone front _ hfront
      rw [hfile]
      rfl
  · by_cases hbelow : components root <+: components path
    · obtain ⟨rest, hrest⟩ := (exists_remaining_iff hroot).mpr hbelow
      rw [isAbsolute_shownPath_of_remaining hroot hrest]
      refine ⟨fun hstart => ⟨rest, hrest, hstart⟩, ?_⟩
      rintro ⟨other, hother, hstart⟩
      have hsame := (hrest.relativeTo?_eq hroot).symm.trans (hother.relativeTo?_eq hroot)
      rwa [Option.some.inj hsame]
    · constructor
      · intro habsolute
        rw [shownPath_of_not_below hroot hbelow, isAbsolute, startsWith_iff] at habsolute
        exact absurd (habsolute.subset (List.mem_singleton_self _)) (not_mem_fileName path)
      · rintro ⟨rest, hrest, -⟩
        exact absurd ((exists_remaining_iff hroot).mp ⟨rest, hrest⟩) hbelow

/-- A doubled slash and a dot are not shown, and a directory beside the root is not below it. -/
theorem shownPath_relative_source :
    "/srv/src" ≠ "" ∧ shownPath "/srv//src/./lib/A.php" "/srv/src" = "lib/A.php" ∧
      '/' ∉ (shownPath "/srv/src-old/A.php" "/srv/src").toList := by
  have hroot : "/srv/src" ≠ "" := by decide
  refine ⟨hroot, ?_, ?_⟩
  · refine ((shownPath_relative hroot "/srv//src/./lib/A.php").2.1 "lib/A.php" ?_).trans (by decide)
    exact (relativeTo?_eq_some_iff hroot).mp (by decide +kernel)
  · exact ((shownPath_relative hroot "/srv/src-old/A.php").2.2.1 (by decide +kernel)).1

/-- A file below the root whose name begins with a backslash is shown as an absolute path. -/
theorem shownPath_backslash :
    "/srv/src" ≠ "" ∧ components "/srv/src" <+: components "/srv/src/\\etc/passwd" ∧
      shownPath "/srv/src/\\etc/passwd" "/srv/src" = "/etc/passwd" ∧
      isAbsolute (shownPath "/srv/src/\\etc/passwd" "/srv/src") = true := by
  decide +kernel

end CodeIndex.Render
