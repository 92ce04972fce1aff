import CodeIndex.Proofs.Sql.TemplatePart
import CodeIndex.Sql.Script

/-!
# Literals and the outline of tables

The outline of a table is its name, the names of its columns and its keys.  Two scripts that
differ only in the texts of literals give the same outlines, when the literals stand as values in
the bodies or behind them and none of the texts looks like a comment or a header.

* `Placed` : the literals of a script stand as values.
* `parseTables_fill` : the outlines do not depend on the texts of the literals.
* `parseTables_literal_ne` : what happens without the conditions.
-/

namespace CodeIndex

/-- The name of a table, the names of its columns and its keys. -/
structure Outline where
  qualifiedName : String
  columns : List String
  keys : List Key
  deriving DecidableEq

/-- The outline of a table. -/
def Table.outline (t : Table) : Outline := ⟨t.qualifiedName, t.columns.map Column.name, t.keys⟩

namespace Sql

open Text

/-! ## Outlines of statements -/

/-- The key of a part of a body, and the name of its column. -/
def partOutline (part : List Char) : Option Key × Option String :=
  (parseKey (trim part), (parseColumn (trim part)).map Column.name)

/-- The outline of a statement from its name and the outlines of its parts. -/
def bodyOutline (name : List Char) (parts : List (Option Key × Option String)) : Outline where
  qualifiedName := String.ofList name
  columns := parts.filterMap fun part => if part.1.isSome then none else part.2
  keys := parts.filterMap Prod.fst

/-- Empty parts are neither keys nor columns. -/
theorem filterMap_splitTopLevel {β : Type} {read : List Char → Option β} (hnil : read [] = none)
    (body : List Char) :
    (splitTopLevel body).filterMap read = (pieces body).filterMap fun piece => read (trim piece) := by
  rw [splitTopLevel, List.filterMap_filter, List.filterMap_map]
  congr 1
  funext piece
  cases htrim : trim piece <;> simp [htrim, hnil]

/-- The keys of a body are those among the outlines of its parts. -/
theorem bodyKeys_splitTopLevel (body : List Char) :
    bodyKeys (splitTopLevel body) = ((pieces body).map partOutline).filterMap Prod.fst := by
  rw [bodyKeys, filterMap_splitTopLevel (by rfl), List.filterMap_map]
  rfl

/-- The column names of a body are those of the parts that are no key. -/
theorem bodyColumns_splitTopLevel (body : List Char) :
    (bodyColumns (splitTopLevel body)).map Column.name = ((pieces body).map partOutline).filterMap
      fun part => if part.1.isSome then none else part.2 := by
  rw [bodyColumns, filterMap_splitTopLevel (by rfl), List.map_filterMap, List.filterMap_map]
  congr 1
  funext piece
  by_cases hkey : (parseKey (trim piece)).isSome = true <;> simp [partOutline, hkey]

/-- The outline of a statement comes from its head and the parts of its body. -/
theorem outline_parseStatement (placeholder : String) (segment : List Char) :
    (parseStatement placeholder segment).map Table.outline
      = (statementHead segment).bind fun head =>
        (bodyPieces .outside 0 head.2).map fun parts =>
          bodyOutline head.1 (parts.map partOutline) := by
  rw [parseStatement]
  cases statementHead segment with
  | none => rfl
  | some head =>
      simp only [Option.bind_eq_bind, Option.bind_some, bodyPieces, closingParen]
      cases closingParenFrom .outside 0 head.2 with
      | none => rfl
      | some found =>
          simp only [Option.bind_some, Option.map_some, Table.outline, bodyOutline]
          rw [bodyKeys_splitTopLevel, bodyColumns_splitTopLevel]
          rfl

/-! ## Literals that stand as values -/

variable {ι : Type} {f g : ι → List Char}

/-- The first literal of a part and what follows it. -/
def firstLiteral (part : List (Item ι)) : Option (Char × ι × List (Item ι)) :=
  match rear part with
  | .literal q i :: rest => some (q, i, rest)
  | _ => none

/-- The first literal of a part is a value: no name is read where it stands, and if the list of
a key is open there, no parenthesis closes it in the literal or behind. -/
def PartPlaced (f : ι → List Char) (part : List (Item ι)) : Prop :=
  ∀ p ∈ firstLiteral part, Settled p.1 (trimStart (front part)) ∧
    (opensList (trimStart (front part)) = true → ')' ∉ f p.2.1 ++ p.1 :: fill f p.2.2)

instance (f : ι → List Char) : DecidablePred (PartPlaced f) := fun part =>
  inferInstanceAs (Decidable (∀ p ∈ firstLiteral part, Settled p.1 (trimStart (front part)) ∧
    (opensList (trimStart (front part)) = true → ')' ∉ f p.2.1 ++ p.1 :: fill f p.2.2)))

/-- The literals of a segment stand outside quotes behind the parenthesis that opens the body,
and those of the body are values. -/
def SegmentPlaced (f : ι → List Char) (segment : List (Item ι)) : Prop :=
  rear segment = [] ∨ ∃ p ∈ splitOpen segment, MetOutside .outside 0 p.2 ∧
    ∀ parts ∈ partsFrom .outside 0 p.2, ∀ part ∈ parts, PartPlaced f part

instance (f : ι → List Char) : DecidablePred (SegmentPlaced f) := fun segment =>
  inferInstanceAs (Decidable (rear segment = [] ∨ ∃ p ∈ splitOpen segment,
    MetOutside .outside 0 p.2 ∧
      ∀ parts ∈ partsFrom .outside 0 p.2, ∀ part ∈ parts, PartPlaced f part))

/-- The literals of a script stand outside line comments, and as values in its statements. -/
def Placed (f : ι → List Char) (items : List (Item ι)) : Prop :=
  ∃ out ∈ outsideLinesFrom .start (outsideBlocks items),
    ∀ segment ∈ itemSegments out, SegmentPlaced f segment

instance (f : ι → List Char) (items : List (Item ι)) : Decidable (Placed f items) :=
  inferInstanceAs (Decidable (∃ out ∈ outsideLinesFrom .start (outsideBlocks items),
    ∀ segment ∈ itemSegments out, SegmentPlaced f segment))

/-- A character that is not blank ends the trimming. -/
theorem trim_append_stop {q : Char} (hq : isBlank q = false) (w rest : List Char) :
    trim (w ++ q :: rest) = trimStart w ++ q :: trimEnd rest := by
  rw [trim, trimStart_append_stop hq, trimEnd, dropTail, List.reverse_append, List.reverse_cons,
    List.append_assoc, List.singleton_append, dropWhile_append_cons hq]
  simp [trimEnd, dropTail]

/-- Blanks that are dropped are gone. -/
theorem trimStart_trimStart (cs : List Char) : trimStart (trimStart cs) = trimStart cs := by
  induction cs with
  | nil => rfl
  | cons c cs ih =>
      by_cases hc : isBlank c = true
      · have hcons : trimStart (c :: cs) = trimStart cs := List.dropWhile_cons_of_pos hc
        rw [hcons, ih]
      · rw [trimStart_cons_of_not_blank (by simpa using hc),
          trimStart_cons_of_not_blank (by simpa using hc)]

/-- A part is read in front of its first literal. -/
theorem partOutline_fill {part : List (Item ι)} (hf : Fits f part) (hplaced : PartPlaced f part)
    {q : Char} {i : ι} {rest : List (Item ι)} (hrear : rear part = .literal q i :: rest) :
    partOutline (fill f part) = (parseKey (trimStart (front part)),
      (parseColumn (trimStart (front part))).map Column.name) := by
  have hquote : q = '\'' ∨ q = '"' := (hf.subset (hrear ▸ rear_subset part)).literal.quote
  obtain ⟨hsettled, hlist⟩ := hplaced (q, i, rest) (by simp [firstLiteral, hrear])
  have hstart := trimStart_trimStart (front part)
  have htail : opensList (trimStart (front part)) = true → ')' ∉ trimEnd (f i ++ q :: fill f rest) := by
    intro hopen hmem
    apply hlist hopen
    rw [trimEnd, dropTail, List.mem_reverse] at hmem
    exact List.mem_reverse.mp ((List.dropWhile_suffix _).subset hmem)
  rw [partOutline, fill_eq, hrear, fill_literal, trim_append_stop (isMark_of_quote hquote).blank,
    parseKey_append_quote hquote hsettled htail, parseColumn_append_quote hquote hstart]
  intro hdouble
  exact hsettled.name hdouble _ List.mem_cons_self

/-- The outline of a part does not depend on its literals. -/
theorem partOutline_congr {part : List (Item ι)} (hf : Fits f part) (hg : Fits g part)
    (hplacedF : PartPlaced f part) (hplacedG : PartPlaced g part) :
    partOutline (fill f part) = partOutline (fill g part) := by
  rcases rear_cases part with hrear | ⟨q, i, rest, hrear⟩
  · rw [fill_eq, fill_eq (f := g), hrear]
    rfl
  · rw [partOutline_fill hf hplacedF hrear, partOutline_fill hg hplacedG hrear]

/-! ## Statements and scripts -/

/-- A statement is read in front of the literals of its parts. -/
theorem outline_statement_fill (placeholder : String) {name : List Char}
    {segment body : List (Item ι)} (hsplit : splitOpen segment = some (name, body))
    (hf : Fits f segment) (hmet : MetOutside .outside 0 body) :
    (parseStatement placeholder (fill f segment)).map Table.outline
      = (headName name).bind fun qualified => (partsFrom .outside 0 body).map fun parts =>
        bodyOutline qualified (parts.map fun part => partOutline (fill f part)) := by
  obtain ⟨hfill, hout, hsub⟩ := splitOpen_spec hsplit f
  rw [outline_parseStatement, hfill, statementHead_append_open hout]
  cases headName name with
  | none => rfl
  | some qualified =>
      simp only [Option.map_some, Option.bind_some]
      rw [bodyPieces_fill (hf.subset hsub) hmet, Option.map_map]
      congr 1
      funext parts
      simp [List.map_map, Function.comp_def]

/-- The outline of a table does not depend on the literals of its statement. -/
theorem outline_statement_congr (placeholder : String) {segment : List (Item ι)}
    (hf : Fits f segment) (hg : Fits g segment) (hplacedF : SegmentPlaced f segment)
    (hplacedG : SegmentPlaced g segment) :
    (parseStatement placeholder (fill f segment)).map Table.outline
      = (parseStatement placeholder (fill g segment)).map Table.outline := by
  rcases hplacedF with hrear | ⟨⟨name, body⟩, hsplit, hmet, hpartsF⟩
  · rw [fill_eq, fill_eq (f := g), hrear]
    rfl
  · rcases hplacedG with hrear | ⟨⟨name', body'⟩, hsplit', -, hpartsG⟩
    · rw [fill_eq, fill_eq (f := g), hrear]
      rfl
    · obtain ⟨rfl, rfl⟩ := Prod.mk.inj (Option.mem_unique hsplit hsplit')
      have hsub := (splitOpen_spec hsplit f).2.2
      rw [outline_statement_fill placeholder hsplit hf hmet,
        outline_statement_fill placeholder hsplit hg hmet]
      cases hparts : partsFrom .outside 0 body with
      | none => rfl
      | some parts =>
          have hsame : parts.map (fun part => partOutline (fill f part))
              = parts.map fun part => partOutline (fill g part) := by
            apply List.map_congr_left
            intro part hpart
            have hitems := List.Subset.trans (partsFrom_subset hparts part hpart) hsub
            exact partOutline_congr (hf.subset hitems) (hg.subset hitems)
              (hpartsF parts hparts part hpart) (hpartsG parts hparts part hpart)
          simp only [Option.map_some]
          rw [hsame]

/-- The segments of a script without comments. -/
theorem segments_dropComments_fill {items out : List (Item ι)} (hf : Fits f items)
    (hout : outsideLinesFrom .start (outsideBlocks items) = some out) :
    segments (dropComments (fill f items)) = (itemSegments out).map (fill f) := by
  have hblocks := hf.subset (outsideBlocksFrom_subset false items)
  rw [dropComments, dropBlocks, dropBlocksFrom_fill false items hf, dropLines]
  rw [outsideBlocks] at hout
  rw [dropLinesFrom_fill hblocks hout, segments_fill (hblocks.subset (outsideLinesFrom_subset hout))]

/-- The outlines of the tables of a script. -/
def outlines (placeholder script : String) : List Outline :=
  (parseTables placeholder script).map Table.outline

/-- **Quoted text is opaque to the structure of tables.**  Two scripts that differ only in the
texts of literals that stand as values, with no comment mark and no header in the texts, give
tables with the same names, the same names of columns and the same keys. -/
theorem parseTables_fill (placeholder : String) {items : List (Item ι)} (hf : Fits f items)
    (hg : Fits g items) (hplacedF : Placed f items) (hplacedG : Placed g items) :
    outlines placeholder (String.ofList (fill f items))
      = outlines placeholder (String.ofList (fill g items)) := by
  obtain ⟨out, hout, hsegmentsF⟩ := hplacedF
  obtain ⟨out', hout', hsegmentsG⟩ := hplacedG
  obtain rfl := Option.mem_unique hout hout'
  have houtside : out ⊆ items := List.Subset.trans (outsideLinesFrom_subset hout)
    (outsideBlocksFrom_subset false items)
  rw [outlines, outlines, parseTables, parseTables, String.toList_ofList, String.toList_ofList,
    segments_dropComments_fill hf hout, segments_dropComments_fill hg hout, List.filterMap_map,
    List.filterMap_map, List.map_filterMap, List.map_filterMap]
  apply List.filterMap_congr
  intro segment hsegment
  have hitems := List.Subset.trans ((itemSegmentsFrom_subset none out).2 segment hsegment) houtside
  exact outline_statement_congr placeholder (hf.subset hitems) (hg.subset hitems)
    (hsegmentsF segment hsegment) (hsegmentsG segment hsegment)

/-- The characters of a text, without holes. -/
def plain (text : String) : List (Item ι) := text.toList.map .char

/-- A table whose default, key comment and own comment are left open. -/
def commentedTable : List (Item (Fin 3)) :=
  plain "CREATE TABLE t (x int DEFAULT " ++ [.literal '\'' 0] ++ plain ", y int, KEY k (x) COMMENT "
    ++ [.literal '"' 1] ++ plain ") COMMENT=" ++ [.literal '\'' 2] ++ plain ";"

theorem parseTables_fill_structure :
    let f : Fin 3 → List Char := fun _ => "n".toList
    let g : Fin 3 → List Char := fun i =>
      ["it\'\'s), (KEY j (y); -- ".toList, ", PRIMARY KEY \\\"(y".toList,
        "); DROP TABLE t; CREATE".toList].get i
    Fits f commentedTable ∧ Fits g commentedTable ∧ Placed f commentedTable ∧
      Placed g commentedTable ∧
      outlines "#__" (String.ofList (fill f commentedTable))
        = outlines "#__" (String.ofList (fill g commentedTable)) := by
  intro f g
  have hf : Fits f commentedTable := by decide +kernel
  have hg : Fits g commentedTable := by decide +kernel
  have hplacedF : Placed f commentedTable := by decide +kernel
  have hplacedG : Placed g commentedTable := by decide +kernel
  exact ⟨hf, hg, hplacedF, hplacedG, parseTables_fill "#__" hf hg hplacedF hplacedG⟩

/-- The texts of literals matter when they look like a header or a comment, when a parenthesis in
them follows the list of a key, and where a list or a name is read. -/
theorem parseTables_literal_ne :
    outlines "#__" "CREATE TABLE a (x int DEFAULT 'n');"
      ≠ outlines "#__" "CREATE TABLE a (x int DEFAULT 'CREATE TABLE b (z int)');" ∧
    outlines "#__" "CREATE TABLE a (x int DEFAULT 'n', y int DEFAULT 'n');"
      ≠ outlines "#__" "CREATE TABLE a (x int DEFAULT '/*', y int DEFAULT '*/');" ∧
    outlines "#__" "CREATE TABLE a (x int DEFAULT 'n');"
      ≠ outlines "#__" "CREATE TABLE a (x int DEFAULT '\n-- n');" ∧
    outlines "#__" "CREATE TABLE a (KEY k (x) COMMENT 'n');"
      ≠ outlines "#__" "CREATE TABLE a (KEY k (x) COMMENT 'n)');" ∧
    outlines "#__" "CREATE TABLE a (KEY k ((x = 'n')));"
      ≠ outlines "#__" "CREATE TABLE a (KEY k ((x = 'm')));" ∧
    outlines "#__" "CREATE TABLE a (KEY \"n\" (x));"
      ≠ outlines "#__" "CREATE TABLE a (KEY \"m\" (x));" ∧
    outlines "#__" "CREATE TABLE a (CONSTRAINT 'n' UNIQUE (x));"
      ≠ outlines "#__" "CREATE TABLE a (CONSTRAINT 'n m' UNIQUE (x));" := by
  decide +kernel

end Sql

end CodeIndex
