import CodeIndex.Proofs.Sql.CommentFree
import CodeIndex.Proofs.Sql.Piece

/-!
# Statements do not reach into each other

A script is cut in front of every statement header, so a statement is read from its own
segment and from nothing else.  Two scripts that are written one after the other, the second
starting with a header, therefore define the tables of the first and then those of the
second, however broken the statements of the first are.

What has to be seen is that the cut does not move: a line end stops every keyword, and the
blanks behind it lead to the second header, which is no `TABLE`.  So a header of the first
script is a header of both together, and the other way round.

* `isHeader_append_line` : what follows a line end does not decide a header in front of it.
* `segmentsFrom_append_line` : the segments of both scripts are those of each.
* `parseTables_append` : so are the tables.
-/

namespace CodeIndex.Sql

open Text

/-- The text starts a statement: the two words of a header in any letter case, blanks between
them, and a word boundary after them. -/
def StartsStatement (cs : List Char) : Prop :=
  ∃ create gap table rest, cs = create ++ (gap ++ (table ++ rest)) ∧
    Spells "CREATE".toList create ∧ gap ≠ [] ∧ (∀ c ∈ gap, isBlank c = true) ∧
    Spells "TABLE".toList table ∧ isBoundary rest.head? = true

/-- A statement starts with a header, whatever stands in front of it at a boundary. -/
theorem isHeader_of_startsStatement {cs : List Char} (h : StartsStatement cs)
    (before : Option Char) (hbefore : isBoundary before = true) :
    isHeader before cs = true := by
  obtain ⟨create, gap, table, rest, rfl, hcreate, hne, hgap, htable, hrest⟩ := h
  have hfirst : keyword "CREATE" (create ++ (gap ++ (table ++ rest)))
      = some (gap ++ (table ++ rest)) :=
    afterLetters_eq_some_iff.mpr ⟨create, hcreate, rfl⟩
  have hsecond : keyword "TABLE" (table ++ rest) = some rest :=
    afterLetters_eq_some_iff.mpr ⟨table, htable, rfl⟩
  have htrim : trimStart (table ++ rest) = table ++ rest :=
    trimStart_spelling (by decide) (by decide) htable rest
  have hwords : phrase "CREATE" "TABLE" (create ++ (gap ++ (table ++ rest))) = some rest := by
    rw [phrase, hfirst, Option.bind_some, blanks_append hne hgap, Option.bind_some, htrim,
      hsecond]
  simp [isHeader_eq, hwords, hbefore, hrest]

/-- A statement starts with a letter, so no blank of it is dropped, and the letter opens no
`TABLE`. -/
theorem StartsStatement.head {cs : List Char} (h : StartsStatement cs) :
    trimStart cs = cs ∧ keyword "TABLE" cs = none := by
  obtain ⟨create, gap, table, rest, rfl, hcreate, -, -, -, -⟩ := h
  refine ⟨trimStart_spelling (by decide) (by decide) hcreate _, ?_⟩
  have hletters : "CREATE".toList = 'C' :: "REATE".toList := rfl
  rw [hletters] at hcreate
  cases hcreate with
  | @cons _ c _ more hc hmore =>
      have hnot : foldsTo 'T' c = false := by
        simp only [foldsTo, Bool.or_eq_true, Bool.and_eq_true, beq_iff_eq] at hc
        rcases hc with (hc | ⟨h, -⟩) | ⟨h, -⟩
        · simp [foldsTo, hc]
        · exact absurd h (by decide)
        · exact absurd h (by decide)
      simp [keyword, afterLetters, hnot]

/-- **The cut does not move.**  What follows a line end does not decide a header in front of
it, as long as it starts a statement of its own. -/
theorem isHeader_append_line (before : Option Char) (u : List Char) {b : List Char}
    (hb : StartsStatement b) :
    isHeader before (u ++ '\n' :: b) = isHeader before (u ++ ['\n']) := by
  -- A line end stands in no word, and behind it comes no `TABLE`.
  have hline : ∀ rest, isBoundary ('\n' :: rest).head? = true := fun rest => rfl
  have hnext : keyword "TABLE" (trimStart ('\n' :: b)) = none := by
    rw [show trimStart ('\n' :: b) = trimStart b from rfl, hb.head.1]
    exact hb.head.2
  rw [isHeader_eq, isHeader_eq, phrase_append (by decide) (by decide) u (hline b) hnext,
    phrase_append (by decide) (by decide) u (hline []) rfl]
  cases phrase "CREATE" "TABLE" u with
  | none => rfl
  | some rest => cases rest <;> rfl

/-- The segments of a script that starts a statement do not depend on what stands before. -/
theorem segmentsFrom_of_startsStatement {b : List Char} (hb : StartsStatement b)
    (before : Option Char) (hbefore : isBoundary before = true) :
    segmentsFrom before b = ([], segments b) := by
  cases b with
  | nil => rfl
  | cons c rest =>
      have hheader := isHeader_of_startsStatement hb before hbefore
      have hfirst := isHeader_of_startsStatement hb none rfl
      simp [segments, segmentsFrom, hheader, hfirst]

/-- The segments of two scripts, one after the other with a line end between them: the lead
and the segments of the first, then the segments of the second. -/
theorem segmentsFrom_append_line (before : Option Char) (u : List Char) {b : List Char}
    (hb : StartsStatement b) :
    segmentsFrom before (u ++ '\n' :: b) = ((segmentsFrom before (u ++ ['\n'])).1,
      (segmentsFrom before (u ++ ['\n'])).2 ++ segments b) := by
  induction u generalizing before with
  | nil =>
      have hheader := isHeader_append_line before [] hb
      simp only [List.nil_append] at hheader ⊢
      have hrest := segmentsFrom_of_startsStatement hb (some '\n') rfl
      have hnil : segmentsFrom (some '\n') [] = ([], []) := rfl
      rw [segmentsFrom_cons, segmentsFrom_cons, hrest, hnil, hheader]
      split <;> rfl
  | cons c u ih =>
      have hheader := isHeader_append_line before (c :: u) hb
      simp only [List.cons_append] at hheader ⊢
      rw [segmentsFrom_cons, segmentsFrom_cons, ih, hheader]
      split <;> rfl

/-- The segments of two scripts are those of the first and then those of the second. -/
theorem segments_append {a b : List Char} (ha : a = [] ∨ a.getLast? = some '\n')
    (hb : StartsStatement b) : segments (a ++ b) = segments a ++ segments b := by
  rcases ha with rfl | hlast
  · rfl
  · obtain ⟨u, rfl⟩ := List.getLast?_eq_some_iff.mp hlast
    have h := segmentsFrom_append_line none u hb
    rw [List.append_assoc, List.singleton_append, segments, h]
    rfl

/-- A comment mark does not arise where a line end or nothing meets a statement. -/
theorem commentFree_append_statement {a b : List Char}
    (ha : a = [] ∨ a.getLast? = some '\n') (hfreeA : CommentFree a) (hfreeB : CommentFree b) :
    CommentFree (a ++ b) := by
  refine List.isChain_append.mpr ⟨hfreeA, hfreeB, ?_⟩
  intro x hx y _
  rcases ha with rfl | hlast
  · simp at hx
  · rw [hlast] at hx
    cases hx
    rfl

/-- **Statements are contained.**  Of two scripts without comment marks, the first empty or
ended by a line end and the second starting with a header, the tables of both together are
those of the first followed by those of the second: nothing in the first swallows, alters or
drops a table of the second, and nothing in the second completes a statement of the first. -/
theorem parseTables_append (placeholder : String) (a b : String)
    (ha : a = "" ∨ a.toList.getLast? = some '\n') (hb : StartsStatement b.toList)
    (hblockA : occursIn "/*" a = false) (hlineA : occursIn "--" a = false)
    (hblockB : occursIn "/*" b = false) (hlineB : occursIn "--" b = false) :
    parseTables placeholder (a ++ b) = parseTables placeholder a ++ parseTables placeholder b := by
  have hfreeA : CommentFree a.toList := commentFree_iff.mpr ⟨hblockA, hlineA⟩
  have hfreeB : CommentFree b.toList := commentFree_iff.mpr ⟨hblockB, hlineB⟩
  have hend : a.toList = [] ∨ a.toList.getLast? = some '\n' := by
    rcases ha with rfl | hlast
    · exact .inl rfl
    · exact .inr hlast
  have hfree : CommentFree (a ++ b).toList := by
    rw [String.toList_append]
    exact commentFree_append_statement hend hfreeA hfreeB
  simp only [parseTables, dropComments_eq_self hfree, dropComments_eq_self hfreeA,
    dropComments_eq_self hfreeB]
  rw [String.toList_append, segments_append hend hb, List.filterMap_append]

/-- A statement that ends inside an open literal and an open body, and one in mixed letter
case behind it. -/
theorem parseTables_append_unclosed :
    parseTables "#__" ("CREATE TABLE `#__half` (`id` int DEFAULT 'x;\n" ++
        "create\tTable `#__ok` (`id` int NOT NULL);")
      = parseTables "#__" "CREATE TABLE `#__half` (`id` int DEFAULT 'x;\n" ++
        parseTables "#__" "create\tTable `#__ok` (`id` int NOT NULL);" := by
  apply parseTables_append
  · exact .inr (by decide)
  · refine ⟨"create".toList, ['\t'], "Table".toList, " `#__ok` (`id` int NOT NULL);".toList,
      rfl, ?_, by decide, by decide, ?_, by decide⟩
    · simp [Spells, foldsTo]
    · simp [Spells, foldsTo]
  all_goals decide

end CodeIndex.Sql
