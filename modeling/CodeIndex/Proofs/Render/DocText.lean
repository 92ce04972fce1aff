import CodeIndex.Proofs.Text.CharClass
import CodeIndex.Proofs.Text.Lines
import CodeIndex.Proofs.Text.Strip
import CodeIndex.Proofs.Text.Trim
import CodeIndex.Render.Report

/-!
# The text of a doc block

A doc block writes its lines below each other, every one behind an indentation, an asterisk and a
space, between delimiters on lines of their own.  Cleaning takes away what was put around the lines
and nothing of the lines, also where a line itself starts with an asterisk or ends like the block.
So the summary of a doc block is the first of its lines that says something and starts no tag.

* `DocBlock.text` : lines written as a doc block.
* `docBody_text`, `docLine_written` : delimiters and asterisks are taken off once.
* `summaryLine_eq_some_iff`, `summaryLine_eq_none_iff` : the summary of a doc block.
* `cleanDoc_block` : cleaning undoes writing.
-/

namespace CodeIndex.Render

open Text

/-! ## Doc blocks -/

/-- Blanks in front of a line that do not end one. -/
structure Indent where
  chars : List Char
  isGap : ∀ c ∈ chars, isBlank c = true ∧ c ≠ '\n'

/-- A text that fits on a line and has no outer blanks. -/
structure TightLine where
  text : String
  newline_notMem : '\n' ∉ text.toList
  tight : Tight text.toList

/-- A line of a doc block: a text behind an indentation, and how the line ends. -/
structure DocRow where
  indent : Indent
  content : TightLine
  ending : LineEnd

/-- A doc block: how the line of its opening delimiter ends, its rows, and the blanks in front of
its closing delimiter.  Neither the first nor the last row is empty. -/
structure DocBlock where
  ending : LineEnd
  rows : List DocRow
  indent : Indent
  first : rows.head?.map (·.content.text) ≠ some ""
  last : rows.getLast?.map (·.content.text) ≠ some ""

/-- The line of a row as it is written. -/
def DocRow.written (row : DocRow) : List Char :=
  row.indent.chars ++ '*' :: ' ' :: row.content.text.toList

/-- What stands between the delimiters of a doc block. -/
def DocBlock.body (block : DocBlock) : List Char :=
  block.ending.chars ++
    ((block.rows.flatMap fun row => row.written ++ row.ending.chars) ++ block.indent.chars)

/-- A doc block as it is written. -/
def DocBlock.text (block : DocBlock) : String :=
  String.ofList (['/', '*', '*'] ++ block.body ++ ['*', '/'])

/-- The lines that a doc block holds. -/
def DocBlock.contents (block : DocBlock) : List String :=
  block.rows.map (·.content.text)

/-- The line says something and starts no tag. -/
def SumsUp (line : String) : Prop := line ≠ "" ∧ ¬['@'] <+: line.toList

instance (line : String) : Decidable (SumsUp line) := inferInstanceAs (Decidable (_ ∧ _))

/-- The first of the lines that sums up. -/
def IsSummary (lines : List String) (line : String) : Prop :=
  ∃ before after, lines = before ++ line :: after ∧ SumsUp line ∧ ∀ other ∈ before, ¬SumsUp other

/-- An item with the summary of the lines below it, if they have one. -/
inductive IsSummed (lines : List String) (head : String) : String → Prop
  | summed (line : String) (h : IsSummary lines line) :
      IsSummed lines head (item (head ++ "\n  " ++ line))
  | plain (h : ∀ line ∈ lines, ¬SumsUp line) : IsSummed lines head (item head)

/-- What an item says of an event above its summary: its name and its parameters. -/
def eventHead (e : EventInfo) : String :=
  e.qualifiedName ++
    (if e.parameters.isEmpty then "" else "\n  Parameters: " ++ joinWith ", " e.parameters)

/-- An indentation is blank. -/
theorem Indent.isBlank_of_mem (indent : Indent) : ∀ c ∈ indent.chars, isBlank c = true :=
  fun c hc => (indent.isGap c hc).1

/-- An indentation stays on its line. -/
theorem Indent.newline_notMem (indent : Indent) : '\n' ∉ indent.chars :=
  fun hmem => (indent.isGap _ hmem).2 rfl

/-! ## Delimiters -/

/-- The text in front of the closing delimiter ends with a blank. -/
theorem DocBlock.getLast?_body (block : DocBlock) {c : Char}
    (h : block.body.getLast? = some c) : isBlank c = true := by
  have hending : ∀ (front : List Char) (ending : LineEnd),
      (front ++ ending.chars).getLast? = some '\n' := by
    intro front ending
    cases ending <;> simp [LineEnd.chars]
  rw [DocBlock.body, ← List.append_assoc, List.getLast?_append, Option.or_eq_some_iff] at h
  rcases h with hindent | ⟨-, hrows⟩
  · exact block.indent.isBlank_of_mem c (List.mem_of_getLast? hindent)
  · rcases List.eq_nil_or_concat block.rows with hnone | ⟨rows, row, hlast⟩
    · rw [hnone, List.flatMap_nil, List.append_nil, ← List.nil_append block.ending.chars,
        hending, Option.some.injEq] at hrows
      rw [← hrows]
      decide
    · rw [hlast, List.concat_eq_append, List.flatMap_append, List.flatMap_singleton,
        ← List.append_assoc, ← List.append_assoc, hending, Option.some.injEq] at hrows
      rw [← hrows]
      decide

/-- The delimiters of a doc block are taken off once. -/
theorem docBody_text (block : DocBlock) : docBody block.text.toList = block.body := by
  have htrim : trim (['/', '*', '*'] ++ block.body ++ ['*', '/'])
      = ['/', '*', '*'] ++ block.body ++ ['*', '/'] := by
    refine trim_eq_self ?_ ?_
    · rintro c hc
      rw [← Option.some.inj hc]
      decide
    · intro c hc
      rw [List.getLast?_append] at hc
      rw [← Option.some.inj hc]
      decide
  have hopen : stripAll ['/', '*', '*'] (['/', '*', '*'] ++ block.body ++ ['*', '/'])
      = block.body ++ ['*', '/'] := by
    refine (stripAll_eq_iff (by decide)).mpr ⟨1, rfl, ?_⟩
    rw [DocBlock.body]
    cases block.ending <;> simp [LineEnd.chars]
  have hclose : stripAll ['/', '*'] (['/', '*'] ++ block.body.reverse) = block.body.reverse := by
    refine (stripAll_eq_iff (by decide)).mpr ⟨1, rfl, ?_⟩
    rintro ⟨rest, hrest⟩
    have hlast : block.body.getLast? = some '/' := by
      rw [← List.head?_reverse, ← hrest]
      rfl
    exact absurd (block.getLast?_body hlast) (by decide)
  rw [docBody, DocBlock.text, String.toList_ofList, htrim, hopen, stripAllEnd,
    List.reverse_append]
  have hword : (['*', '/'] : List Char).reverse = ['/', '*'] := rfl
  rw [hword, hclose, List.reverse_reverse]

/-! ## Lines -/

/-- A row stays on its line. -/
theorem DocRow.newline_notMem (row : DocRow) : '\n' ∉ row.written := by
  rw [DocRow.written, List.mem_append, not_or]
  refine ⟨row.indent.newline_notMem, ?_⟩
  simp [row.content.newline_notMem]

/-- No carriage return stands in front of the line end of a row. -/
theorem DocRow.getLast?_ne_return (row : DocRow) : row.written.getLast? ≠ some '\r' := by
  intro hreturn
  have hwritten : row.written = row.indent.chars ++ ['*', ' '] ++ row.content.text.toList := by
    rw [List.append_assoc]
    rfl
  rw [hwritten, List.getLast?_append, Option.or_eq_some_iff] at hreturn
  rcases hreturn with hcontent | ⟨-, hfront⟩
  · exact absurd (row.content.tight.last _ hcontent) (by decide)
  · simp at hfront

/-- Below the line of the opening delimiter stand the lines of the rows, and the blanks in front of
the closing one if there are any. -/
theorem lines_body (block : DocBlock) :
    lines block.body = [] :: (block.rows.map DocRow.written ++ lines block.indent.chars) := by
  have hrows : ∀ rows : List DocRow,
      lines ((rows.flatMap fun row => row.written ++ row.ending.chars) ++ block.indent.chars)
        = rows.map DocRow.written ++ lines block.indent.chars := by
    intro rows
    induction rows with
    | nil => rfl
    | cons row rows ih =>
        rw [List.flatMap_cons, List.append_assoc, List.append_assoc,
          lines_append_lineEnd row.newline_notMem row.getLast?_ne_return, ih]
        rfl
  rw [DocBlock.body, lines_lineEnd, hrows]

/-- The text of a line stands behind its asterisk. -/
theorem docLine_of_trim {line rest : List Char} (h : trim line = '*' :: rest) :
    docLine line = trimStart rest := by
  rw [docLine, h]
  rfl

/-- A blank line has no text. -/
theorem docLine_of_blank {line : List Char} (h : ∀ c ∈ line, isBlank c = true) :
    docLine line = [] := by
  rw [docLine, trim_eq_nil_iff.mpr h]

/-- The asterisk of a row is taken off with the blanks around it, and no other. -/
theorem docLine_written (row : DocRow) : docLine row.written = row.content.text.toList := by
  have hindent := row.indent.isBlank_of_mem
  have htight := row.content.tight
  rw [DocRow.written]
  cases hchars : row.content.text.toList with
  | nil =>
      -- With nothing behind it, the space ends the line and goes with its outer blanks.
      have hspace : ∀ c ∈ [' '], isBlank c = true := by decide
      have hstar : Tight ['*'] := tight_of_not_blank (by decide)
      have htrim := hstar.trim_between hindent hspace
      rw [List.append_assoc] at htrim
      exact docLine_of_trim htrim
  | cons c chars =>
      rw [hchars] at htight
      have hline : Tight ('*' :: ' ' :: c :: chars) := by
        constructor
        · rintro d hd
          rw [← Option.some.inj hd]
          decide
        · rw [List.getLast?_cons_cons, List.getLast?_cons_cons]
          exact htight.last
      have hnone : ∀ c ∈ ([] : List Char), isBlank c = true := by simp
      have htrim := hline.trim_between hindent hnone
      rw [List.append_nil] at htrim
      have hspace : trimStart (' ' :: c :: chars) = trimStart (c :: chars) := rfl
      rw [docLine_of_trim htrim, hspace, trimStart_cons_of_not_blank (htight.head c rfl)]

/-- The blanks in front of the closing delimiter are no line, or one of which nothing is left. -/
theorem map_docLine_indent (indent : Indent) :
    (lines indent.chars).map docLine = [] ∨ (lines indent.chars).map docLine = [[]] := by
  by_cases hnone : indent.chars = []
  · rw [hnone]
    exact .inl rfl
  · rw [lines_eq_singleton indent.newline_notMem hnone, List.map_singleton,
      docLine_of_blank indent.isBlank_of_mem]
    exact .inr rfl

/-! ## Cleaning -/

section Contents

variable {block : DocBlock} {content : List Char}

/-- Every content is that of a row. -/
theorem exists_row_of_mem (h : content ∈ block.contents.map String.toList) :
    ∃ row ∈ block.rows, row.content.text.toList = content := by
  rw [DocBlock.contents, List.map_map] at h
  exact List.mem_map.mp h

/-- No content starts or ends with a blank. -/
theorem tight_of_mem (h : content ∈ block.contents.map String.toList) : Tight content := by
  obtain ⟨row, -, rfl⟩ := exists_row_of_mem h
  exact row.content.tight

/-- No content holds a line break. -/
theorem newline_notMem_of_mem (h : content ∈ block.contents.map String.toList) :
    '\n' ∉ content := by
  obtain ⟨row, -, rfl⟩ := exists_row_of_mem h
  exact row.content.newline_notMem

end Contents

/-- An edge of the lines is empty only if that of their characters is. -/
theorem map_toList_ne {edge : Option String} (h : edge ≠ some "") :
    edge.map String.toList ≠ some [] := by
  intro hedge
  obtain ⟨text, htext, hnil⟩ := Option.map_eq_some_iff.mp hedge
  rw [String.toList_eq_nil_iff.mp hnil] at htext
  exact h htext

namespace DocBlock

variable (block : DocBlock)

/-- The first content is not empty. -/
theorem head?_contents : (block.contents.map String.toList).head? ≠ some [] := by
  rw [List.head?_map, contents, List.head?_map]
  exact map_toList_ne block.first

/-- The last content is not empty. -/
theorem getLast?_contents : (block.contents.map String.toList).getLast? ≠ some [] := by
  rw [List.getLast?_map, contents, List.getLast?_map]
  exact map_toList_ne block.last

/-- **Cleaning leaves the lines**, joined by line feeds. -/
theorem cleanDoc_text : cleanDoc block.text = joinWith "\n" block.contents := by
  have hrows : block.rows.map (docLine ∘ DocRow.written) = block.contents.map String.toList := by
    rw [contents, List.map_map]
    exact List.map_congr_left fun row _ => docLine_written row
  have hopening : docLine [] = [] := rfl
  rw [cleanDoc, docBody_text, lines_body, List.map_cons, List.map_append, List.map_map, hrows,
    hopening, trim_join (fun _ => tight_of_mem) block.head?_contents block.getLast?_contents
      (map_docLine_indent block.indent)]
  rfl

/-- The lines of the clean text are those that were written. -/
theorem lines_cleanDoc :
    lines (cleanDoc block.text).toList = block.contents.map String.toList := by
  have hreturn : ∀ content ∈ block.contents.map String.toList, content.getLast? ≠ some '\r' :=
    fun content hmem hlast => absurd ((tight_of_mem hmem).last _ hlast) (by decide)
  rw [cleanDoc_text, joinWith, String.toList_ofList]
  exact lines_join (fun _ => newline_notMem_of_mem) hreturn block.getLast?_contents

end DocBlock

/-! ## Summaries -/

/-- The test for a summary line is the relation. -/
theorem isSummary_iff {line : String} : isSummary line.toList = true ↔ SumsUp line := by
  rw [isSummary, SumsUp, Bool.and_eq_true, Bool.not_eq_true', Bool.not_eq_true',
    ← Bool.not_eq_true, ← Bool.not_eq_true, List.isEmpty_iff, startsWith_iff]
  simp

/-- The summary is looked for among the lines that were written. -/
theorem summaryLine_eq_find? (block : DocBlock) :
    summaryLine (some block.text) = block.contents.find? (isSummary ∘ String.toList) := by
  have hstring : String.ofList ∘ String.toList = id := funext fun text => String.ofList_toList
  rw [summaryLine, Option.bind_some, block.lines_cleanDoc, List.find?_map, Option.map_map, hstring,
    Option.map_id]
  rfl

/-- **The summary of a doc block** is the first of its lines that sums up. -/
theorem summaryLine_eq_some_iff (block : DocBlock) {line : String} :
    summaryLine (some block.text) = some line ↔ IsSummary block.contents line := by
  have hskipped : ∀ other : String,
      (!(isSummary ∘ String.toList) other) = true ↔ ¬SumsUp other := by
    intro other
    rw [Function.comp_apply, Bool.not_eq_true', ← Bool.not_eq_true, isSummary_iff]
  rw [summaryLine_eq_find?, List.find?_eq_some_iff_append, Function.comp_apply, isSummary_iff]
  simp only [hskipped]
  constructor
  · rintro ⟨hline, before, after, hlines, hbefore⟩
    exact ⟨before, after, hlines, hline, hbefore⟩
  · rintro ⟨before, after, hlines, hline, hbefore⟩
    exact ⟨hline, before, after, hlines, hbefore⟩

/-- A block has no summary line exactly if none of its lines sums up. -/
theorem summaryLine_eq_none_iff (block : DocBlock) :
    summaryLine (some block.text) = none ↔ ∀ line ∈ block.contents, ¬SumsUp line := by
  rw [summaryLine_eq_find?, List.find?_eq_none]
  simp only [Function.comp_apply, isSummary_iff]

/-- An item shows the summary of its doc block below it, if there is one. -/
theorem isSummed_item (block : DocBlock) (head : String) : IsSummed block.contents head
    (item (head ++ optionally (summaryLine (some block.text)) ("\n  " ++ ·))) := by
  cases hsummary : summaryLine (some block.text) with
  | none =>
      rw [optionally, String.append_empty]
      exact .plain ((summaryLine_eq_none_iff block).mp hsummary)
  | some line =>
      rw [optionally, ← String.append_assoc]
      exact .summed line ((summaryLine_eq_some_iff block).mp hsummary)

/-- **Cleaning undoes the writing of a doc block.**  Whatever the indentations and line ends, what
is left is the lines of the block, joined by line feeds; its summary is the first of them that is
not empty and starts no tag, and this is what methods and events show below them, or nothing if
there is no such line. -/
theorem cleanDoc_block (block : DocBlock) :
    cleanDoc block.text = joinWith "\n" block.contents ∧
    (∀ line, summaryLine (some block.text) = some line ↔ IsSummary block.contents line) ∧
    (∀ m : Method, m.doc = some block.text →
      IsSummed block.contents m.signature (methodLine m)) ∧
    ∀ e : EventInfo, e.description = some block.text →
      IsSummed block.contents (eventHead e) (event e) := by
  refine ⟨block.cleanDoc_text, fun line => summaryLine_eq_some_iff block, ?_, ?_⟩
  · intro m hdoc
    rw [methodLine, hdoc]
    exact isSummed_item block m.signature
  · intro e hdoc
    rw [event, hdoc]
    exact isSummed_item block (eventHead e)

/-- A row with four spaces in front of its asterisk and a line end of both characters. -/
def spacedRow (text : String) (hfeed : '\n' ∉ text.toList)
    (htrim : trim text.toList = text.toList) : DocRow where
  indent := ⟨[' ', ' ', ' ', ' '], by decide⟩
  content := ⟨text, hfeed, tight_iff.mpr htrim⟩
  ending := .returnFeed

/-- A doc block with a tag, an empty line and lines that look like its asterisks and its end. -/
def starredBlock : DocBlock where
  ending := .returnFeed
  rows := [spacedRow "@api" (by decide) (by decide), spacedRow "" (by decide) (by decide),
    spacedRow "* one" (by decide) (by decide), spacedRow "two */" (by decide) (by decide)]
  indent := ⟨[], by decide⟩
  first := by decide
  last := by decide

/-- Lines that start with an asterisk or end like a block are left whole, and the first of them that
is no tag sums up a method and an event. -/
theorem cleanDoc_block_starred :
    let m : Method := { name := "f", doc := some starredBlock.text }
    let e : EventInfo :=
      { name := "E", qualifiedName := "E", description := some starredBlock.text }
    starredBlock.text
      = "/**\r\n    * @api\r\n    * \r\n    * * one\r\n    * two */\r\n*/" ∧
    cleanDoc starredBlock.text = "@api\n\n* one\ntwo */" ∧
    summaryLine (some starredBlock.text) = some "* one" ∧
    m.doc = some starredBlock.text ∧
    IsSummed ["@api", "", "* one", "two */"] "public function f()" (methodLine m) ∧
    e.description = some starredBlock.text ∧
    IsSummed ["@api", "", "* one", "two */"] "E" (event e) := by
  intro m e
  obtain ⟨hclean, hsummary, hmethod, hevent⟩ := cleanDoc_block starredBlock
  have hfirst : IsSummary starredBlock.contents "* one" :=
    ⟨["@api", ""], ["two */"], rfl, by decide, by decide⟩
  exact ⟨by decide, hclean, (hsummary "* one").mpr hfirst, rfl, hmethod m rfl, rfl, hevent e rfl⟩

end CodeIndex.Render
