import Mathlib.Data.List.Forall2
import CodeIndex.Config
import CodeIndex.Proofs.Text.Pieces
import CodeIndex.Proofs.Text.Strip

/-!
# Which files the patterns admit

A pattern for the directories of a name can be spelled in two ways.  Both are looked for as texts in
the whole path, and still they match exactly the paths that have the name as a whole segment in
front of the last one.  A pattern for an extension is looked for in the whole path too, but with
nothing behind it, so it also matches where the extension does not end the path.

* `matchesPattern_directory` : what the two spellings of a directory pattern match.
* `matchesPattern_extension` : what an extension pattern matches.
* `shouldIndex_eq_true_iff` : which files are admitted.
* `shouldIndex_directories` : directory patterns in the lists, and longer lists of patterns.
* `shouldIndex_extension` : an extension pattern that stands alone.
-/

namespace CodeIndex.Config

open Text

variable {name pattern path : String}

/-- The characters of a path, with slashes for backslashes. -/
def slashed (path : String) : List Char := replaceChar '\\' '/' path.toList

/-- The directories that a path leads through: its segments, but not the last one. -/
def directories (path : String) : List (List Char) := (splitAt '/' (slashed path)).dropLast

/-- The two spellings of a pattern for the directories of a name. -/
inductive Spells (name : String) : String → Prop
  | plain : Spells name (name ++ "/")
  | starred : Spells name ("**/" ++ name ++ "/**")

/-! ## What a pattern matches -/

/-- A name with a slash stands for a directory of that name on the path. -/
theorem matchesPattern_plain (hname : '/' ∉ name.toList) (path : String) :
    matchesPattern path.toList (name ++ "/").toList = true ↔
      name.toList ++ ['/'] <+: slashed path ∨
        '/' :: (name.toList ++ ['/']) <:+: slashed path := by
  have hend : endsWith ['/'] (name ++ "/").toList = true := by
    rw [String.toList_append]
    exact List.isSuffixOf_iff_suffix.mpr (List.suffix_append _ _)
  have hdir : dropTail (· == '/') (name ++ "/").toList = name.toList := by
    have hlast : ∀ c, name.toList.getLast? = some c → (c == '/') = false := by
      intro c hc
      rw [beq_eq_false_iff_ne]
      rintro rfl
      exact hname (List.mem_of_getLast? hc)
    rw [← dropTail_eq_self hlast, String.toList_append, dropTail, dropTail, List.reverse_append]
    rfl
  simp only [matchesPattern, hend, if_true, hdir, Bool.or_eq_true, startsWith_iff, contains_iff]
  rw [String.toList_append]
  rfl

/-- The spelling with stars stands for the same. -/
theorem matchesPattern_starred (path : String) :
    matchesPattern path.toList ("**/" ++ name ++ "/**").toList = true ↔
      name.toList ++ ['/'] <+: slashed path ∨
        '/' :: (name.toList ++ ['/']) <:+: slashed path := by
  have hpattern : ("**/" ++ name ++ "/**").toList
      = ['*', '*', '/'] ++ (name.toList ++ ['/', '*', '*']) := by
    rw [String.toList_append, String.toList_append, List.append_assoc]
    rfl
  have hend : endsWith ['/'] ("**/" ++ name ++ "/**").toList = false := by
    have hlast : ("**/" ++ name ++ "/**").toList
        = ['*', '*', '/'] ++ name.toList ++ ['/', '*'] ++ ['*'] := by
      rw [hpattern]
      simp
    rw [hlast, endsWith_concat]
    rfl
  have hstart : stripStart? ['*', '.'] ("**/" ++ name ++ "/**").toList = none := by
    rw [hpattern]
    rfl
  have hinner : (stripStart? ['*', '*', '/'] ("**/" ++ name ++ "/**").toList).bind
      (stripEnd? ['/', '*', '*']) = some name.toList := by
    rw [hpattern, stripStart?_eq_some_iff.mpr rfl, Option.bind_some]
    exact List.isSuffixOf?_eq_some_iff_append_eq.mpr rfl
  simp only [matchesPattern, hend, hstart, hinner, Bool.false_eq_true, if_false, Bool.or_eq_true,
    startsWith_iff, contains_iff]
  exact or_comm

/-- **A directory pattern matches whole segments.**  In either spelling, it matches the paths that
lead through a directory of the name. -/
theorem matchesPattern_directory (hname : '/' ∉ name.toList) (h : Spells name pattern)
    (path : String) :
    matchesPattern path.toList pattern.toList = true ↔ name.toList ∈ directories path := by
  rw [directories, mem_dropLast_splitAt_iff hname]
  cases h with
  | plain => exact matchesPattern_plain hname path
  | starred => exact matchesPattern_starred path

/-- An extension pattern matches wherever a dot and the extension stand. -/
theorem matchesPattern_extension (hslash : '/' ∉ name.toList) (path : String) :
    matchesPattern path.toList ("*." ++ name).toList = true ↔
      '.' :: name.toList <:+: slashed path := by
  have hpattern : ("*." ++ name).toList = ['*', '.'] ++ name.toList := String.toList_append
  have hend : endsWith ['/'] ("*." ++ name).toList = false := by
    rw [Bool.eq_false_iff, endsWith, Ne, List.isSuffixOf_iff_suffix, hpattern]
    intro hsuffix
    have hmem : '/' ∈ ['*', '.'] ++ name.toList := hsuffix.subset List.mem_cons_self
    simp [hslash] at hmem
  have hsuffix : stripStart? ['*', '.'] ("*." ++ name).toList = some name.toList :=
    stripStart?_eq_some_iff.mpr hpattern.symm
  simp only [matchesPattern, hend, hsuffix, Bool.false_eq_true, if_false, contains_iff]
  rfl

/-! ## Which files are admitted -/

/-- A list of patterns matches if one of them does. -/
theorem matchesAny_eq_true_iff {patterns : List String} : matchesAny path patterns = true ↔
    ∃ pattern ∈ patterns, matchesPattern path.toList pattern.toList = true :=
  List.any_eq_true

/-- More patterns match more. -/
theorem matchesAny_mono {patterns more : List String} (h : patterns ⊆ more)
    (hmatch : matchesAny path patterns = true) : matchesAny path more = true := by
  obtain ⟨pattern, hmem, hpattern⟩ := matchesAny_eq_true_iff.mp hmatch
  exact matchesAny_eq_true_iff.mpr ⟨pattern, h hmem, hpattern⟩

/-- A path is indexed if it is not excluded, and included where anything is. -/
theorem shouldIndex_eq_true_iff {c : Config} : c.shouldIndex path = true ↔
    matchesAny path c.indexing.excluded = false ∧
      (c.indexing.included = [] ∨ matchesAny path c.indexing.included = true) := by
  rw [shouldIndex, Bool.and_eq_true, Bool.not_eq_true', Bool.or_eq_true, List.isEmpty_iff]

/-- The configuration with other patterns. -/
def withPatterns (c : Config) (excluded included : List String) : Config :=
  { c with indexing := { c.indexing with excluded := excluded, included := included } }

/-- Two patterns are the same, or spellings of one directory pattern. -/
def SameDirectory (pattern other : String) : Prop :=
  pattern = other ∨ ∃ name : String, '/' ∉ name.toList ∧ Spells name pattern ∧ Spells name other

/-- The two spellings of a directory match the same paths. -/
theorem SameDirectory.matchesPattern_eq {other : String} (h : SameDirectory pattern other) :
    matchesPattern path.toList pattern.toList = matchesPattern path.toList other.toList := by
  rcases h with rfl | ⟨name, hname, hpattern, hother⟩
  · rfl
  · rw [Bool.eq_iff_iff, matchesPattern_directory hname hpattern,
      matchesPattern_directory hname hother]

/-- Patterns may be spelled either way. -/
theorem matchesAny_congr {patterns others : List String}
    (h : List.Forall₂ SameDirectory patterns others) :
    matchesAny path patterns = matchesAny path others := by
  induction h with
  | nil => rfl
  | cons hfirst _ ih =>
      rw [matchesAny, matchesAny, List.any_cons, List.any_cons, hfirst.matchesPattern_eq]
      exact congrArg _ ih

/-- **Directory patterns and longer lists.**  In either spelling, a directory pattern matches the
paths that have its name as a whole segment in front of the last one, so one spelling can stand for
the other in both lists.  More exclude patterns admit no file that was rejected, and more include
patterns, if there were any, reject none that was admitted. -/
theorem shouldIndex_directories :
    (∀ name pattern path : String, '/' ∉ name.toList → Spells name pattern →
      (matchesPattern path.toList pattern.toList = true ↔ name.toList ∈ directories path)) ∧
    (∀ (c : Config) (path : String) (excluded included : List String),
      List.Forall₂ SameDirectory c.indexing.excluded excluded →
      List.Forall₂ SameDirectory c.indexing.included included →
      (c.withPatterns excluded included).shouldIndex path = c.shouldIndex path) ∧
    (∀ (c : Config) (path : String) (excluded : List String), c.indexing.excluded ⊆ excluded →
      c.shouldIndex path = false →
      (c.withPatterns excluded c.indexing.included).shouldIndex path = false) ∧
    ∀ (c : Config) (path : String) (included : List String), c.indexing.included ≠ [] →
      c.indexing.included ⊆ included → c.shouldIndex path = true →
      (c.withPatterns c.indexing.excluded included).shouldIndex path = true := by
  refine ⟨?_, ?_, ?_, ?_⟩
  · intro name pattern path hname hpattern
    exact matchesPattern_directory hname hpattern path
  · intro c path excluded included hexcluded hincluded
    have hempty : included = [] ↔ c.indexing.included = [] := by
      rw [← List.length_eq_zero_iff, ← List.length_eq_zero_iff, hincluded.length_eq]
    rw [Bool.eq_iff_iff, shouldIndex_eq_true_iff, shouldIndex_eq_true_iff,
      matchesAny_congr hexcluded, matchesAny_congr hincluded, ← hempty]
    rfl
  · intro c path excluded hmore hrejected
    rw [Bool.eq_false_iff] at hrejected ⊢
    refine fun hadmitted => hrejected ?_
    obtain ⟨hexcluded, hincluded⟩ := shouldIndex_eq_true_iff.mp hadmitted
    refine shouldIndex_eq_true_iff.mpr ⟨?_, hincluded⟩
    rw [Bool.eq_false_iff] at hexcluded ⊢
    exact fun hmatch => hexcluded (matchesAny_mono hmore hmatch)
  · intro c path included hnonempty hmore hadmitted
    obtain ⟨hexcluded, hincluded⟩ := shouldIndex_eq_true_iff.mp hadmitted
    exact shouldIndex_eq_true_iff.mpr
      ⟨hexcluded, .inr (matchesAny_mono hmore (hincluded.resolve_left hnonempty))⟩

/-- Directories of tests are excluded in the other spelling, with one more pattern, and one of two
trees is included. -/
theorem shouldIndex_directories_tests :
    (matchesPattern "src/tests/A.php".toList "tests/".toList = true ↔
      "tests".toList ∈ directories "src/tests/A.php") ∧
    (withPatterns {} ["node_modules/", ".git/", ".phpindex/", "tests/"] []).shouldIndex
      "a/tests.php" = shouldIndex {} "a/tests.php" ∧
    (withPatterns {} ["vendor/", "node_modules/", ".git/", ".phpindex/", "**/tests/**"]
      []).shouldIndex "tests/A.php" = false ∧
    (withPatterns (withPatterns {} [] ["src/"]) [] ["lib/", "src/"]).shouldIndex "src/A.php"
      = true := by
  obtain ⟨hmatches, hspelling, hexcluded, hincluded⟩ := shouldIndex_directories
  refine ⟨?_, ?_, ?_, ?_⟩
  · exact hmatches "tests" "tests/" "src/tests/A.php" (by decide) .plain
  · refine hspelling {} _ _ _ ?_ .nil
    have htests : SameDirectory "**/tests/**" "tests/" :=
      .inr ⟨"tests", by decide, .starred, .plain⟩
    exact .cons (.inl rfl) (.cons (.inl rfl) (.cons (.inl rfl) (.cons htests .nil)))
  · exact hexcluded {} _ _ (List.subset_cons_self _ _) (by decide +kernel)
  · exact hincluded (withPatterns {} [] ["src/"]) _ _ (by decide) (List.subset_cons_self _ _)
      (by decide +kernel)

/-- **An extension pattern that stands alone.**  The file is rejected if its path ends with the dot
and the extension, and also if they stand anywhere in front of the end, in a longer extension or in
the name of a directory. -/
theorem shouldIndex_extension {suffix : String} (hslash : '/' ∉ suffix.toList) {c : Config}
    (hexcluded : c.indexing.excluded = ["*." ++ suffix])
    (hincluded : c.indexing.included = [] ∨ matchesAny path c.indexing.included = true) :
    c.shouldIndex path = false ↔
      '.' :: suffix.toList <:+ slashed path ∨
        ∃ front back, slashed path = front ++ '.' :: suffix.toList ++ back ∧ back ≠ [] := by
  have hrejects : c.shouldIndex path = false ↔ '.' :: suffix.toList <:+: slashed path := by
    rw [Bool.eq_false_iff, Ne, shouldIndex_eq_true_iff, and_iff_left hincluded, hexcluded,
      Bool.not_eq_false, matchesAny, List.any_cons, List.any_nil, Bool.or_false,
      matchesPattern_extension hslash]
  rw [hrejects]
  constructor
  · rintro ⟨front, back, htext⟩
    by_cases hback : back = []
    · rw [hback, List.append_nil] at htext
      exact .inl ⟨front, htext⟩
    · exact .inr ⟨front, back, htext.symm, hback⟩
  · rintro (hend | ⟨front, back, htext, -⟩)
    · exact hend.isInfix
    · exact ⟨front, back, htext.symm⟩

/-- The defaults, but for one pattern that excludes backups. -/
def withoutBackups : Config := withPatterns {} ["*.old"] []

/-- A backup is rejected, and so is a file with a double extension. -/
theorem shouldIndex_extension_backup :
    '/' ∉ "old".toList ∧ withoutBackups.indexing.excluded = ["*." ++ "old"] ∧
      withoutBackups.indexing.included = [] ∧
      withoutBackups.shouldIndex "lib/A.php.old" = false ∧
      withoutBackups.shouldIndex "lib/A.old.php" = false := by
  have hslash : '/' ∉ "old".toList := by decide
  refine ⟨hslash, rfl, rfl, ?_, ?_⟩
  · exact (shouldIndex_extension hslash rfl (.inl rfl)).mpr (.inl (by decide))
  · exact (shouldIndex_extension hslash rfl (.inl rfl)).mpr
      (.inr ⟨"lib/A".toList, ".php".toList, by decide, by decide⟩)

/-- A file in a directory whose name ends in the extension is rejected, though its own path does
not. -/
theorem shouldIndex_extension_directory :
    withoutBackups.shouldIndex "lib.old/A.php" = false ∧
      ¬('.' :: "old".toList <:+ slashed "lib.old/A.php") := by
  decide +kernel

end CodeIndex.Config
