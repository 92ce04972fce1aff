import Mathlib.Data.List.Forall2
import CodeIndex.Proofs.Sql.ColumnTexts
import CodeIndex.Proofs.Text.Lines
import CodeIndex.Proofs.Text.Trim
import CodeIndex.Render.Tables

/-!
# The grid of columns

The page of a table shows its columns in a grid, each in a row of five cells with bars around them.
Names hold neither bars nor line breaks and types no line breaks, but all else is put into the row
as it stands in the script.  So a row takes one line more for every line break of its default and
its comment, and has one cell more for every bar of its type, its default and its comment; the grid
is well formed exactly if there are none.

* `IsRow` : the cells of a line.
* `IsGrid` : a page with a well-formed grid.
* `length_lines_columnRow`, `length_rowCells` : how many lines and cells a row has.
* `isPage_lines_table` : the lines of a page.
* `table_grid` : what the grid of a table from a script looks like.
-/

namespace CodeIndex.Render

open Text Sql

/-! ## Grids -/

/-- The line above the rows with the titles of the cells. -/
def gridTitles : List Char := "| Column | Type | Null | Default | Extra |".toList

/-- The line that separates the titles from the rows. -/
def gridRule : List Char := "|---|---|---|---|---|".toList

/-- The line starts and ends with a bar, and its bars delimit these cells, apart from blanks around
them. -/
def IsRow (fields : List (List Char)) (row : List Char) : Prop :=
  ∃ pieces, splitAt '|' row = [] :: (pieces ++ [[]]) ∧ pieces.map trim = fields

/-- The line has five cells, of which the first four are the name, the type, the word for whether
the column may be null, and the default. -/
def IsRowOf (c : Column) (row : List Char) : Prop :=
  ∃ extra, IsRow [c.name.toList, c.type.toList, (if c.nullable then "YES" else "NO").toList,
    (c.default.getD "").toList, extra] row

/-- What a page says above its grid: names, options and comment of the table. -/
def pageHead (t : Table) : String :=
  line ("## Table " ++ t.qualifiedName ++ " (" ++ t.shortName ++ ")") ++
    (if (tableOptions t).isEmpty then "" else line (joinWith ", " (tableOptions t))) ++
    optionally t.comment line

/-- What a page says below its grid: the keys of the table. -/
def pageKeys (t : Table) : String :=
  if t.keys.isEmpty then ""
  else "\nIndexes:\n" ++ concat (t.keys.map fun k => line (keyLine k))

/-- The lines are those of the page of the table with such rows in its grid. -/
def IsPage (t : Table) (rows page : List (List Char)) : Prop :=
  page = lines (pageHead t).toList ++ [] :: gridTitles :: gridRule :: rows ++
    lines (trimEnd (pageKeys t).toList)

/-- The page has a well-formed grid: one line for each column, in order, and each is its row. -/
def IsGrid (t : Table) (page : List (List Char)) : Prop :=
  ∃ rows, IsPage t rows page ∧ List.Forall₂ IsRowOf t.columns rows

/-- The line breaks in the row of a column. -/
def rowBreaks (c : Column) : Nat :=
  (c.default.getD "").toList.count '\n' + (c.comment.getD "").toList.count '\n'

/-- The bars in the row of a column that are none of the grid. -/
def rowBars (c : Column) : Nat :=
  c.type.toList.count '|' + (c.default.getD "").toList.count '|' +
    (c.comment.getD "").toList.count '|'

/-! ## Rows -/

/-- The texts in the cells of the row of a column. -/
def rowFields (c : Column) : List (List Char) :=
  [c.name.toList, c.type.toList, (if c.nullable then "YES" else "NO").toList,
    (c.default.getD "").toList, (columnExtra c).toList]

/-- A text with a space on each side. -/
def spaced (field : List Char) : List Char := ' ' :: (field ++ [' '])

/-- A row is its texts between bars. -/
theorem toList_columnRow (c : Column) : (columnRow c).toList
    = '|' :: (rowFields c).flatMap fun field => spaced field ++ ['|'] := by
  delta columnRow
  simp [rowFields, spaced, String.toList_append]

/-- A row is cut at the bars around its fields and at those in them. -/
theorem splitAt_fields (fields : List (List Char)) :
    splitAt '|' ('|' :: fields.flatMap fun field => spaced field ++ ['|'])
      = [] :: (fields.flatMap (fun field => splitAt '|' (spaced field)) ++ [[]]) := by
  rw [splitAt, if_pos rfl]
  congr 1
  -- The bar behind each text ends its last piece, so the pieces of the texts stand in a row.
  induction fields with
  | nil => rfl
  | cons field fields ih =>
      rw [List.flatMap_cons, List.append_assoc, List.singleton_append, splitAt_append_cons, ih,
        List.flatMap_cons, List.append_assoc]

/-- The last cell of a row holds the comment and a word before it. -/
theorem count_columnExtra (mark : Char) (hmark : mark ∉ "auto_increment; ".toList) (c : Column) :
    (columnExtra c).toList.count mark = (c.comment.getD "").toList.count mark := by
  have hword : "auto_increment".toList.count mark = 0 := by
    rw [List.count_eq_zero]
    exact fun hmem => hmark (List.mem_append_left "; ".toList hmem)
  have hlead : "auto_increment; ".toList.count mark = 0 := List.count_eq_zero.mpr hmark
  rw [columnExtra, joinWith, String.toList_ofList]
  cases c.autoIncrement with
  | false => cases c.comment <;> simp [join]
  | true =>
      cases c.comment with
      | none => simpa [join] using hword
      | some text =>
          have htext : join "; ".toList (["auto_increment", text].map String.toList)
              = "auto_increment; ".toList ++ text.toList := rfl
          change (join "; ".toList (["auto_increment", text].map String.toList)).count mark = _
          rw [htext, List.count_append, hlead, Nat.zero_add]
          rfl

/-- A word holds no mark that is no word character. -/
theorem not_mem_of_isWordChar {mark : Char} (hmark : isWordChar mark = false) {cs : List Char}
    (h : ∀ c ∈ cs, isWordChar c = true) : mark ∉ cs := by
  intro hmem
  rw [h mark hmem] at hmark
  cases hmark

/-- A row ends with a bar, and all its line breaks are in front of it. -/
theorem exists_columnRow {c : Column} (hc : Recorded c) :
    ∃ text, (columnRow c).toList = text ++ ['|'] ∧ text.count '\n' = rowBreaks c := by
  have hname : c.name.toList.count '\n' = 0 :=
    List.count_eq_zero.mpr (not_mem_of_isWordChar (by decide) hc.name)
  have htype : c.type.toList.count '\n' = 0 := by
    rw [List.count_eq_zero]
    intro hmem
    exact absurd (hc.spaces _ hmem (by decide)) (by decide)
  have hnull : (if c.nullable then "YES" else "NO").toList.count '\n' = 0 := by
    cases c.nullable <;> rfl
  have hextra := count_columnExtra '\n' (by decide) c
  refine ⟨'|' :: ((rowFields c).dropLast.flatMap (fun field => spaced field ++ ['|'])
    ++ spaced (columnExtra c).toList), ?_, ?_⟩
  · rw [toList_columnRow]
    simp [rowFields]
  · simp only [rowFields, spaced, rowBreaks, List.dropLast, List.flatMap_cons, List.flatMap_nil,
      List.count_cons, List.count_append, List.count_nil]
    simp
    omega

/-- **Every line break in a cell makes a line more.** -/
theorem length_lines_columnRow {c : Column} (hc : Recorded c) :
    (lines (columnRow c).toList).length = rowBreaks c + 1 := by
  obtain ⟨text, hrow, hcount⟩ := exists_columnRow hc
  rw [hrow, length_lines (by decide), hcount]

/-- The row of a column without line breaks is one line. -/
theorem lines_columnRow {c : Column} (hc : Recorded c) (h : rowBreaks c = 0) :
    lines (columnRow c).toList = [(columnRow c).toList] := by
  obtain ⟨text, hrow, hcount⟩ := exists_columnRow hc
  rw [h, List.count_eq_zero] at hcount
  rw [hrow, lines_of_not_mem (by decide) hcount]

/-! ## The cells of a row -/

/-- The cells that the bars of a row delimit. -/
def rowCells (c : Column) : List (List Char) :=
  ((rowFields c).flatMap fun field => splitAt '|' (spaced field)).map trim

/-- The row of a column shows its cells. -/
theorem isRow_columnRow (c : Column) : IsRow (rowCells c) (columnRow c).toList := by
  refine ⟨_, ?_, rfl⟩
  rw [toList_columnRow, splitAt_fields]

/-- The bars of a line delimit its cells in one way. -/
theorem IsRow.unique {fields other : List (List Char)} {row : List Char} (h : IsRow fields row)
    (hother : IsRow other row) : fields = other := by
  obtain ⟨pieces, hpieces, rfl⟩ := h
  obtain ⟨pieces', hpieces', rfl⟩ := hother
  have hsame := (List.cons.inj (hpieces.symm.trans hpieces')).2
  rw [List.append_cancel_right hsame]

/-- A cell is cut into one piece more than it has bars. -/
theorem length_splitAt_spaced (field : List Char) :
    (splitAt '|' (spaced field)).length = field.count '|' + 1 := by
  rw [length_splitAt]
  simp [spaced]

/-- **Every bar in a cell makes a cell more.** -/
theorem length_rowCells {c : Column} (hc : Recorded c) : (rowCells c).length = rowBars c + 5 := by
  have hname : c.name.toList.count '|' = 0 :=
    List.count_eq_zero.mpr (not_mem_of_isWordChar (by decide) hc.name)
  have hnull : (if c.nullable then "YES" else "NO").toList.count '|' = 0 := by
    cases c.nullable <;> rfl
  have hextra := count_columnExtra '|' (by decide) c
  simp only [rowCells, rowFields, rowBars, List.length_map, List.flatMap_cons, List.flatMap_nil,
    List.length_append, length_splitAt_spaced, List.length_nil]
  omega

/-- A tight cell without a bar is read back. -/
theorem splitAt_spaced {field : List Char} (hbar : '|' ∉ field) (htight : Tight field) :
    (splitAt '|' (spaced field)).map trim = [field] := by
  have hspaced : '|' ∉ spaced field := by simp [spaced, hbar]
  have hblank : ∀ d ∈ [' '], isBlank d = true := by decide
  rw [splitAt_of_not_mem hspaced]
  exact congrArg (fun cell => [cell]) (htight.trim_between hblank hblank)

/-- The first cells are as they should be when no bar of a type or a default stands in between. -/
theorem exists_rowCells {c : Column} (hc : Recorded c) (htype : '|' ∉ c.type.toList)
    (hdefault : '|' ∉ (c.default.getD "").toList) : ∃ more, rowCells c = [c.name.toList,
      c.type.toList, (if c.nullable then "YES" else "NO").toList, (c.default.getD "").toList]
        ++ more := by
  have hname := splitAt_spaced (not_mem_of_isWordChar (by decide) hc.name)
    (tight_of_not_blank fun d hd => isBlank_of_isWordChar (hc.name d hd))
  have hnull : ((splitAt '|' (spaced (if c.nullable then "YES" else "NO").toList))).map trim
      = [(if c.nullable then "YES" else "NO").toList] := by
    cases c.nullable <;> decide
  have hvalue : Tight (c.default.getD "").toList := by
    cases hget : c.default with
    | none => exact tight_of_not_blank (by simp)
    | some text => exact hc.default text hget
  refine ⟨(splitAt '|' (spaced (columnExtra c).toList)).map trim, ?_⟩
  simp only [rowCells, rowFields, List.flatMap_cons, List.flatMap_nil, List.map_append, hname,
    splitAt_spaced htype hc.type, hnull, splitAt_spaced hdefault hvalue]
  simp

/-- A row has its five cells exactly if no bar stands in one of them. -/
theorem isRowOf_columnRow_iff {c : Column} (hc : Recorded c) :
    IsRowOf c (columnRow c).toList ↔ rowBars c = 0 := by
  have hlength := length_rowCells hc
  constructor
  · rintro ⟨extra, hrow⟩
    rw [(isRow_columnRow c).unique hrow] at hlength
    simp at hlength
    omega
  · intro hbars
    have hcounts : c.type.toList.count '|' = 0 ∧ (c.default.getD "").toList.count '|' = 0 := by
      rw [rowBars] at hbars
      omega
    obtain ⟨more, hmore⟩ := exists_rowCells hc (List.count_eq_zero.mp hcounts.1)
      (List.count_eq_zero.mp hcounts.2)
    rw [hmore, hbars] at hlength
    have hone : more.length = 1 := by simpa using hlength
    obtain ⟨extra, rfl⟩ := List.length_eq_one_iff.mp hone
    have hrow := isRow_columnRow c
    rw [hmore] at hrow
    exact ⟨extra, hrow⟩

/-! ## Pages -/

/-- The lines of a text that ends with a bar and a line end, and of what is left of the rest without
its trailing blanks. -/
theorem lines_trimEnd_append (text rest : List Char) :
    lines (trimEnd (text ++ ['|', '\n'] ++ rest))
      = lines (text ++ ['|', '\n']) ++ lines (trimEnd rest) := by
  rw [trimEnd_append]
  -- A blank rest is cut off together with the line end in front of it, which makes no line less.
  split
  · rename_i hrest
    have hbar : trimEnd (text ++ ['|', '\n']) = text ++ ['|'] := by
      have htext : text ++ ['|', '\n'] = text ++ (['|'] ++ ['\n']) := rfl
      rw [htext, trimEnd_append]
      rfl
    rw [hbar, hrest, lines_concat_newline (by decide) (by decide)]
    exact (List.append_nil _).symm
  · have hline : ∀ behind, text ++ ['|', '\n'] ++ behind = (text ++ ['|']) ++ '\n' :: behind := by
      simp
    have hend := hline []
    rw [List.append_nil] at hend
    rw [hline, lines_append_newline, hend]

/-- The lines of rows, each with a line end behind it. -/
theorem lines_rows {columns : List Column} (h : ∀ c ∈ columns, Recorded c) :
    lines (columns.flatMap fun c => (columnRow c).toList ++ ['\n'])
      = columns.flatMap fun c => lines (columnRow c).toList := by
  induction columns with
  | nil => rfl
  | cons c columns ih =>
      obtain ⟨text, hrow, -⟩ := exists_columnRow (h c List.mem_cons_self)
      have hrest := ih fun d hd => h d (List.mem_cons_of_mem _ hd)
      rw [List.flatMap_cons, List.flatMap_cons, List.append_assoc, List.singleton_append,
        lines_append_newline, hrest, hrow, List.append_assoc, List.singleton_append,
        lines_concat_newline (by decide) (by decide)]

/-- The text of parts that are put together is theirs in order. -/
theorem toList_concat (parts : List String) :
    (concat parts).toList = parts.flatMap String.toList := by
  have hfrom : ∀ front : String, (parts.foldl (· ++ ·) front).toList
      = front.toList ++ parts.flatMap String.toList := by
    induction parts with
    | nil => simp
    | cons part parts ih => simp [ih, String.toList_append]
  exact hfrom ""

/-- The text of a line ends in a line break. -/
theorem toList_line (text : String) : (line text).toList = text.toList ++ ['\n'] :=
  String.toList_append

/-- What stands above a grid is made of whole lines. -/
theorem exists_pageHead (t : Table) : ∃ text, (pageHead t).toList = text ++ ['\n'] := by
  have happend : ∀ {a b : String}, (∃ text, a.toList = text ++ ['\n']) →
      (b = "" ∨ ∃ text, b = line text) → ∃ text, (a ++ b).toList = text ++ ['\n'] := by
    rintro a b ⟨text, htext⟩ (rfl | ⟨more, rfl⟩)
    · exact ⟨text, by rw [String.append_empty, htext]⟩
    · exact ⟨a.toList ++ more.toList, by
        rw [String.toList_append, toList_line, List.append_assoc]⟩
  refine happend (happend ⟨_, toList_line _⟩ ?_) ?_
  · split
    · exact .inl rfl
    · exact .inr ⟨_, rfl⟩
  · cases t.comment with
    | none => exact .inl rfl
    | some comment => exact .inr ⟨comment, rfl⟩

/-- The text of a page up to its keys ends with a bar and a line end. -/
theorem exists_front {t : Table} (h : ∀ c ∈ t.columns, Recorded c) : ∃ text,
    (pageHead t).toList ++ gridHead.toList
      ++ (t.columns.flatMap fun c => (columnRow c).toList ++ ['\n']) = text ++ ['|', '\n'] := by
  rcases List.eq_nil_or_concat t.columns with hnone | ⟨front, last, hlast⟩
  · have hhead : gridHead.toList = gridHead.toList.dropLast.dropLast ++ ['|', '\n'] := by decide
    refine ⟨(pageHead t).toList ++ gridHead.toList.dropLast.dropLast, ?_⟩
    rw [hnone, List.flatMap_nil, List.append_nil, List.append_assoc, ← hhead]
  · obtain ⟨text, hrow, -⟩ := exists_columnRow (h last (by simp [hlast]))
    refine ⟨(pageHead t).toList ++ gridHead.toList
      ++ ((front.flatMap fun c => (columnRow c).toList ++ ['\n']) ++ text), ?_⟩
    rw [hlast, List.concat_eq_append, List.flatMap_append, List.flatMap_singleton, hrow]
    simp only [List.append_assoc]
    rfl

/-- **The lines of a page.** -/
theorem isPage_lines_table {t : Table} (h : ∀ c ∈ t.columns, Recorded c) :
    IsPage t (t.columns.flatMap fun c => lines (columnRow c).toList) (lines (table t).toList) := by
  have htable : (table t).toList = trimEnd ((pageHead t).toList ++ gridHead.toList
      ++ (t.columns.flatMap fun c => (columnRow c).toList ++ ['\n']) ++ (pageKeys t).toList) := by
    have hparts : table t = trimmedEnd (pageHead t ++ gridHead
        ++ concat (t.columns.map fun c => line (columnRow c)) ++ pageKeys t) := rfl
    rw [hparts, trimmedEnd, String.toList_ofList, String.toList_append, String.toList_append,
      String.toList_append, toList_concat, List.flatMap_map]
    simp only [toList_line]
  have hhead : gridHead.toList = '\n' :: (gridTitles ++ '\n' :: (gridRule ++ ['\n'])) := by decide
  have htitles : lines (gridTitles ++ ['\n']) = [gridTitles] := by decide
  have hrule : lines (gridRule ++ ['\n']) = [gridRule] := by decide
  obtain ⟨front, hfront⟩ := exists_front h
  obtain ⟨text, htext⟩ := exists_pageHead t
  have hsplit : ∀ rows, text ++ ['\n'] ++ '\n' :: (gridTitles ++ '\n' :: (gridRule ++ ['\n']))
      ++ rows = text ++ '\n' :: '\n' :: (gridTitles ++ '\n' :: (gridRule ++ '\n' :: rows)) := by
    simp
  rw [IsPage, htable, hfront, lines_trimEnd_append, ← hfront, htext, hhead, hsplit,
    lines_append_newline text ('\n' :: _), lines_newline, lines_append_newline gridTitles, htitles,
    lines_append_newline gridRule, hrule, lines_rows h]
  rfl

/-- The rows of a page are known from the page. -/
theorem IsPage.unique {t : Table} {rows other page : List (List Char)} (h : IsPage t rows page)
    (hother : IsPage t other page) : rows = other := by
  have hsame := List.append_cancel_right (h.symm.trans hother)
  simpa using hsame

/-- Rows make as many lines as there are columns only if none of them is broken. -/
theorem rowBreaks_of_length {columns : List Column} (h : ∀ c ∈ columns, Recorded c) :
    columns.length ≤ (columns.flatMap fun c => lines (columnRow c).toList).length ∧
      ((columns.flatMap fun c => lines (columnRow c).toList).length = columns.length →
        ∀ c ∈ columns, rowBreaks c = 0) := by
  induction columns with
  | nil => simp
  | cons c columns ih =>
      obtain ⟨hle, hrest⟩ := ih fun d hd => h d (List.mem_cons_of_mem _ hd)
      rw [List.flatMap_cons, List.length_append, length_lines_columnRow (h c List.mem_cons_self),
        List.length_cons]
      refine ⟨by omega, ?_⟩
      intro hlength d hd
      rcases List.mem_cons.mp hd with rfl | hd
      · omega
      · exact hrest (by omega) d hd

/-- A grid is well formed exactly if no row holds a line break or a bar of its own. -/
theorem isGrid_iff {t : Table} (h : ∀ c ∈ t.columns, Recorded c) :
    IsGrid t (lines (table t).toList) ↔ ∀ c ∈ t.columns, rowBreaks c = 0 ∧ rowBars c = 0 := by
  have hpage := isPage_lines_table h
  have hwhole : (∀ c ∈ t.columns, rowBreaks c = 0) →
      (t.columns.flatMap fun c => lines (columnRow c).toList)
        = t.columns.map fun c => (columnRow c).toList := by
    intro hbreaks
    rw [List.map_eq_flatMap]
    exact List.flatMap_congr fun c hc => lines_columnRow (h c hc) (hbreaks c hc)
  constructor
  · rintro ⟨rows, hrows, hall⟩
    -- A broken row makes more lines than columns, so none is broken and lines are rows.
    have hlength := hall.length_eq
    rw [hrows.unique hpage] at hlength
    have hbreaks := (rowBreaks_of_length h).2 hlength.symm
    rw [hrows.unique hpage, hwhole hbreaks, List.forall₂_map_right_iff, List.forall₂_same] at hall
    exact fun c hc => ⟨hbreaks c hc, (isRowOf_columnRow_iff (h c hc)).mp (hall c hc)⟩
  · intro hplain
    rw [hwhole fun c hc => (hplain c hc).1] at hpage
    refine ⟨_, hpage, ?_⟩
    rw [List.forall₂_map_right_iff, List.forall₂_same]
    exact fun c hc => (isRowOf_columnRow_iff (h c hc)).mpr (hplain c hc).2

/-! ## Tables from scripts -/

/-- **What the grid of a table looks like.**  Below its head stand the rows of the columns in their
order, and nothing else up to the keys.  A row has a line more for every line break and a cell more
for every bar in what the script says of the column; so there is one line of five cells for each
column exactly if the script says nothing with a line break or a bar. -/
theorem table_grid (placeholder script : String) : ∀ t ∈ parseTables placeholder script,
    IsPage t (t.columns.flatMap fun c => lines (columnRow c).toList) (lines (table t).toList) ∧
    (∀ c ∈ t.columns,
      (lines (columnRow c).toList).length = rowBreaks c + 1 ∧
      (rowBreaks c = 0 → lines (columnRow c).toList = [(columnRow c).toList]) ∧
      ∃ cells, IsRow cells (columnRow c).toList ∧ cells.length = rowBars c + 5 ∧
        ('|' ∉ c.type.toList → '|' ∉ (c.default.getD "").toList → ∃ more, cells =
          [c.name.toList, c.type.toList, (if c.nullable then "YES" else "NO").toList,
            (c.default.getD "").toList] ++ more)) ∧
    (IsGrid t (lines (table t).toList) ↔ ∀ c ∈ t.columns, rowBreaks c = 0 ∧ rowBars c = 0) := by
  intro t ht
  have hcolumns := recorded_of_mem_parseTables ht
  refine ⟨isPage_lines_table hcolumns, ?_, isGrid_iff hcolumns⟩
  intro c hc
  have hrecorded := hcolumns c hc
  exact ⟨length_lines_columnRow hrecorded, lines_columnRow hrecorded, rowCells c,
    isRow_columnRow c, length_rowCells hrecorded, exists_rowCells hrecorded⟩

/-- A script with a list of values, a default and a comment. -/
def sizesScript : String :=
  "CREATE TABLE `#__sizes` (`size` enum('s', 'm') NOT NULL DEFAULT 's' COMMENT 'of a shirt', " ++
    "`id` int AUTO_INCREMENT);"

/-- A table with a list of values and a default. -/
def sizesTable : Table where
  qualifiedName := "#__sizes"
  shortName := "sizes"
  columns := [⟨"size", "enum('s', 'm')", false, some "'s'", false, some "of a shirt"⟩,
    ⟨"id", "int", true, none, true, none⟩]

/-- The values of a list and their commas stay in one cell. -/
theorem table_grid_enum : sizesTable ∈ parseTables "#__" sizesScript ∧
    IsGrid sizesTable (lines (table sizesTable).toList) := by
  have hmem : sizesTable ∈ parseTables "#__" sizesScript := by decide +kernel
  exact ⟨hmem, (table_grid _ _ sizesTable hmem).2.2.mpr (by decide)⟩

/-- A script whose comments hold a line break and a bar. -/
def brokenScript : String :=
  "CREATE TABLE t (x int COMMENT 'a\nb'); CREATE TABLE u (x int COMMENT 'a|b');"

/-- A table with one column with a comment. -/
def brokenTable (name comment : String) : Table where
  qualifiedName := name
  shortName := name
  columns := [⟨"x", "int", true, none, false, some comment⟩]

/-- A comment of two lines breaks the row of its column, and a bar in a comment adds a cell. -/
theorem table_broken_row :
    (brokenTable "t" "a\nb" ∈ parseTables "#__" brokenScript ∧
      ¬IsGrid (brokenTable "t" "a\nb") (lines (table (brokenTable "t" "a\nb")).toList)) ∧
    brokenTable "u" "a|b" ∈ parseTables "#__" brokenScript ∧
      ¬IsGrid (brokenTable "u" "a|b") (lines (table (brokenTable "u" "a|b")).toList) := by
  have hline : brokenTable "t" "a\nb" ∈ parseTables "#__" brokenScript := by decide +kernel
  have hbar : brokenTable "u" "a|b" ∈ parseTables "#__" brokenScript := by decide +kernel
  refine ⟨⟨hline, ?_⟩, hbar, ?_⟩
  · rw [isGrid_iff (recorded_of_mem_parseTables hline)]
    decide
  · rw [isGrid_iff (recorded_of_mem_parseTables hbar)]
    decide

end CodeIndex.Render
