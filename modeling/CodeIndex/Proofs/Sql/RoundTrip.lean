import CodeIndex.Proofs.Sql.KeyRead
import CodeIndex.Proofs.Sql.OptionsRead

/-!
# Reading undoes writing

A written table is one statement: it holds no comment and no second header, its head is read up
to the parenthesis of its body, the body and the options end where they were written to end, and
every part of the body is read as what it was written for.

* `TableDef.segments_text` : a written table is one segment.
* `statementHead_text` : its head is read as its name.
* `parseTables_text` : reading a written table gives that table and nothing else.
-/

namespace CodeIndex.Sql

open Text

/-! ## One segment -/

/-- The parts of a table keep a calm text ready. -/
theorem TableDef.ready_parts (t : TableDef) :
    ∀ part ∈ t.parts, ∀ rest, Calm rest → Ready rest → Ready (part ++ rest) := by
  intro part hpart rest hcalm hrest
  rcases List.mem_append.mp hpart with hcolumn | hkey
  · obtain ⟨column, -, rfl⟩ := List.mem_map.mp hcolumn
    exact column.ready hcalm hrest
  · obtain ⟨key, -, rfl⟩ := List.mem_map.mp hkey
    exact key.ready hrest

/-- The body of a table and what follows it. -/
theorem TableDef.ready_body (layout : Layout) (t : TableDef) :
    Ready (t.body layout ++ ')' :: (t.options ++ [';'])) := by
  have hsemi : Ready [';'] := .cons (by decide) .nil
  have hoptions : Ready (t.options ++ [';']) :=
    t.ready_options (.cons (by decide) (by decide) (by decide) _) hsemi
  have hclose : Ready (')' :: (t.options ++ [';'])) := .cons (by decide) hoptions
  have hcalm : Calm (layout.gap ++ ')' :: (t.options ++ [';'])) :=
    .gap layout.isGap (by decide) (by decide) (by decide) _
  have hparts := ready_join layout.isGap t.ready_parts hcalm (.gap layout.isGap hclose)
  have hbody := Ready.gap layout.isGap hparts
  simpa [TableDef.body] using hbody

/-- A table name has no blanks. -/
theorem TableName.not_blank (name : TableName) : ∀ c ∈ name.chars, isBlank c = false :=
  fun c hc => (name.isName c hc).1

/-- The name of a table and what follows it. -/
theorem Layout.ready_nameText (layout : Layout) (name : TableName) {rest : List Char}
    (hcalm : Calm rest) (h : Ready rest) : Ready (layout.nameText name ++ rest) := by
  have hclose := layout.quoting.ready_mark h
  have hname := Ready.run name.not_blank name.free (layout.quoting.calm_mark hcalm) hclose
  simpa [Layout.nameText] using layout.quoting.ready_mark hname

/-- The text of a table behind the words in front of its name. -/
def TableDef.named (layout : Layout) (t : TableDef) : List Char :=
  layout.nameText t.name ++ (" (".toList ++ (t.body layout ++ ')' :: (t.options ++ [';'])))

/-- It is ready. -/
theorem TableDef.ready_named (layout : Layout) (t : TableDef) : Ready (t.named layout) := by
  have hopen : Ready (" (".toList ++ (t.body layout ++ ')' :: (t.options ++ [';']))) :=
    .safe (by decide) (t.ready_body layout)
  exact layout.ready_nameText t.name (.space (by decide) (by decide) _) hopen

/-- Behind its first letter a written table holds no comment and no header. -/
theorem TableDef.text_eq_cons (layout : Layout) (t : TableDef) :
    ∃ rest, t.text layout = 'C' :: rest ∧ Ready rest := by
  cases hexists : layout.ifNotExists with
  | true =>
      refine ⟨"REATE TABLE IF NOT EXISTS ".toList ++ t.named layout, ?_,
        .safe (by decide) (t.ready_named layout)⟩
      rw [TableDef.text, Layout.front, hexists]
      rfl
  | false =>
      refine ⟨"REATE TABLE ".toList ++ t.named layout, ?_,
        .safe (by decide) (t.ready_named layout)⟩
      rw [TableDef.text, Layout.front, hexists]
      rfl

/-- No segment starts in a text without a header. -/
theorem segmentsFrom_of_silent {w : List Char} (h : Silent (phrase "CREATE" "TABLE") w [])
    (before : Option Char) : segmentsFrom before w = (w, []) := by
  induction w generalizing before with
  | nil => rfl
  | cons c w ih =>
      have hheader : isHeader before (c :: w) = false := by
        have hhere := h.1
        rw [List.append_nil] at hhere
        rw [isHeader_eq, hhere]
        simp
      rw [segmentsFrom_cons, ih h.2, hheader]
      rfl

/-- **A written table is one statement.**  Nothing is removed from it as a comment, and it is
one segment. -/
theorem TableDef.segments_text (layout : Layout) (t : TableDef) :
    segments (dropComments (t.text layout)) = [t.text layout] := by
  obtain ⟨rest, htext, hready⟩ := t.text_eq_cons layout
  have hfree : CommentFree (t.text layout) := by
    rw [htext]
    refine List.isChain_cons.mpr ⟨?_, hready.free⟩
    intro d _
    simp [opensComment]
  have hheader : isHeader none (t.text layout) = true := by
    rw [TableDef.text, Layout.front]
    cases layout.ifNotExists <;> rfl
  rw [dropComments_eq_self hfree, segments]
  rw [htext] at hheader ⊢
  rw [segmentsFrom_cons, hheader, segmentsFrom_of_silent hready.headless]
  rfl

/-! ## The head -/

/-- The characters of a table name may stand in one. -/
theorem TableName.isTableNameChar (name : TableName) :
    ∀ c ∈ name.chars, Sql.isTableNameChar c = true := by
  intro c hc
  obtain ⟨hblank, hmarks⟩ := name.isName c hc
  simp only [List.mem_cons, List.not_mem_nil, or_false, not_or] at hmarks
  simp [Sql.isTableNameChar, hblank, hmarks]

/-- The name of a written table is read without its quotes. -/
theorem Layout.namedBody_nameText (layout : Layout) (name : TableName) (body : List Char) :
    namedBody (layout.nameText name ++ (" (".toList ++ body)) = some (name.chars, body) := by
  have hstop : ∀ c, (layout.quoting.mark ++ (" (".toList ++ body)).head? = some c →
      isTableNameChar c = false := by
    intro c hc
    cases hquoting : layout.quoting <;> rw [hquoting] at hc <;> cases hc <;> decide
  obtain ⟨htake, hdrop⟩ := takeWhile_append_stop name.isTableNameChar hstop
  have hopen : optionalMark ['\x60', '"', '['] (layout.quoting.mark ++ (name.chars ++
      (layout.quoting.mark ++ (" (".toList ++ body))))
      = name.chars ++ (layout.quoting.mark ++ (" (".toList ++ body)) := by
    cases layout.quoting with
    | backtick => rfl
    | double => rfl
    | bare =>
        obtain ⟨c, rest, hchars⟩ := List.exists_cons_of_ne_nil name.ne_nil
        have hc := (name.isName c (by rw [hchars]; exact List.mem_cons_self)).2
        simp only [List.mem_cons, List.not_mem_nil, or_false, not_or] at hc
        rw [hchars]
        simp [optionalMark, Quoting.mark, hc]
  have hread : tableName (layout.quoting.mark ++ (name.chars ++ (layout.quoting.mark ++
      (" (".toList ++ body)))) = some (name.chars, layout.quoting.mark ++ (" (".toList ++ body)) := by
    simp only [tableName, hopen, htake, hdrop]
    cases hchars : name.chars with
    | nil => exact absurd hchars name.ne_nil
    | cons c rest => rfl
  have hclose : optionalMark ['\x60', '"', ']'] (layout.quoting.mark ++ (" (".toList ++ body))
      = " (".toList ++ body := by
    cases layout.quoting <;> rfl
  rw [Layout.nameText, List.append_assoc, List.append_assoc, namedBody]
  simp only [Option.bind_eq_bind, hread, Option.bind_some, hclose]
  rfl

/-- The words in front of the name of a table. -/
theorem statementHead_create {rest : List Char} (htrim : trimStart rest = rest) :
    statementHead ("CREATE TABLE ".toList ++ rest)
      = (((phrase "IF" "NOT" rest).bind fun more => (blanks more).bind fun more =>
          (keyword "EXISTS" more).bind blanks).bind namedBody).or (namedBody rest) := by
  have hcreate : keyword "CREATE" ("CREATE TABLE ".toList ++ rest)
      = some (" TABLE ".toList ++ rest) := rfl
  have hgap : blanks (" TABLE ".toList ++ rest) = some ("TABLE ".toList ++ rest) := rfl
  have htable : keyword "TABLE" ("TABLE ".toList ++ rest) = some (' ' :: rest) := rfl
  have hname : blanks (' ' :: rest) = some rest := by
    rw [blanks, if_pos (by decide), htrim]
  simp only [statementHead, Option.bind_eq_bind, hcreate, Option.bind_some, hgap, htable, hname]
  rw [phrase_bind "IF" "NOT"]

/-- The words `IF NOT EXISTS` are read together. -/
theorem statementHead_ifNotExists {rest : List Char} {found : List Char × List Char}
    (htrim : trimStart rest = rest) (hbody : namedBody rest = some found) :
    statementHead ("CREATE TABLE IF NOT EXISTS ".toList ++ rest) = some found := by
  have hstart : trimStart ("IF NOT EXISTS ".toList ++ rest) = "IF NOT EXISTS ".toList ++ rest :=
    trimStart_cons_of_not_blank (by decide) _
  have hphrase : phrase "IF" "NOT" ("IF NOT EXISTS ".toList ++ rest)
      = some (" EXISTS ".toList ++ rest) := rfl
  have hgap : blanks (" EXISTS ".toList ++ rest) = some ("EXISTS ".toList ++ rest) := rfl
  have hexists : keyword "EXISTS" ("EXISTS ".toList ++ rest) = some (' ' :: rest) := rfl
  have hname : blanks (' ' :: rest) = some rest := by
    rw [blanks, if_pos (by decide), htrim]
  have htext : "CREATE TABLE IF NOT EXISTS ".toList ++ rest
      = "CREATE TABLE ".toList ++ ("IF NOT EXISTS ".toList ++ rest) := rfl
  rw [htext, statementHead_create hstart, hphrase, Option.bind_some, hgap, Option.bind_some,
    hexists, Option.bind_some, hname, Option.bind_some, hbody]
  rfl

/-- The head of a written table is read as its name, with or without `IF NOT EXISTS`. -/
theorem statementHead_text (layout : Layout) (t : TableDef) : statementHead (t.text layout)
    = some (t.name.chars, t.body layout ++ ')' :: (t.options ++ [';'])) := by
  have hbody : namedBody (t.named layout)
      = some (t.name.chars, t.body layout ++ ')' :: (t.options ++ [';'])) :=
    layout.namedBody_nameText t.name _
  have hblank : ∀ c ∈ layout.nameText t.name, isBlank c = false := by
    intro c hc
    simp only [Layout.nameText, List.mem_append] at hc
    rcases hc with hmark | hname | hmark
    · exact isBlank_of_isIdentifierQuote (layout.quoting.isIdentifierQuote_mark c hmark)
    · exact t.name.not_blank c hname
    · exact isBlank_of_isIdentifierQuote (layout.quoting.isIdentifierQuote_mark c hmark)
  have htrim : trimStart (t.named layout) = t.named layout := by
    have hne : layout.nameText t.name ≠ [] := by simp [Layout.nameText, t.name.ne_nil]
    obtain ⟨c, rest, hchars⟩ := List.exists_cons_of_ne_nil hne
    have hc := hblank c (by rw [hchars]; exact List.mem_cons_self)
    rw [TableDef.named, hchars]
    exact trimStart_cons_of_not_blank hc _
  have htext : t.text layout = layout.front ++ t.named layout := rfl
  rw [htext, Layout.front]
  cases layout.ifNotExists with
  | true => exact statementHead_ifNotExists htrim hbody
  | false =>
      -- A bare name may itself start with the letters `IF`, but no blank and `NOT` follow them.
      have hif : phrase "IF" "NOT" (t.named layout) = none := by
        rw [TableDef.named, phrase_append (by decide) (by decide) _ rfl rfl,
          phrase_of_no_blank hblank]
        rfl
      show statementHead ("CREATE TABLE ".toList ++ t.named layout) = _
      rw [statementHead_create htrim, hif, hbody]
      rfl

/-! ## Tables -/

/-- The keys among the parts of a table are its keys. -/
theorem bodyKeys_parts (t : TableDef) : bodyKeys t.parts = t.keys.map KeyDef.key := by
  have hcolumns : (t.columns.map ColumnDef.text).filterMap parseKey = [] := by
    apply List.filterMap_eq_nil_iff.mpr
    intro part hpart
    obtain ⟨column, -, rfl⟩ := List.mem_map.mp hpart
    exact column.parseKey_text
  have hkeys : (t.keys.map KeyDef.text).filterMap parseKey = t.keys.map KeyDef.key := by
    rw [List.filterMap_map, ← List.filterMap_eq_map]
    exact List.filterMap_congr fun key _ => key.parseKey_text
  rw [bodyKeys, TableDef.parts, List.filterMap_append, hcolumns, hkeys, List.nil_append]

/-- The columns among the parts of a table are its columns. -/
theorem bodyColumns_parts (t : TableDef) :
    bodyColumns t.parts = t.columns.map ColumnDef.column := by
  have hkeys : (t.keys.map KeyDef.text).filterMap
      (fun part => if (parseKey part).isSome then none else parseColumn part) = [] := by
    apply List.filterMap_eq_nil_iff.mpr
    intro part hpart
    obtain ⟨key, -, rfl⟩ := List.mem_map.mp hpart
    simp [key.parseKey_text]
  have hcolumns : (t.columns.map ColumnDef.text).filterMap
      (fun part => if (parseKey part).isSome then none else parseColumn part)
        = t.columns.map ColumnDef.column := by
    rw [List.filterMap_map, ← List.filterMap_eq_map]
    apply List.filterMap_congr
    intro column _
    simp [column.parseKey_text, column.parseColumn_text]
  rw [bodyColumns, TableDef.parts, List.filterMap_append, hcolumns, hkeys, List.append_nil]

/-- A written table is read as the table that it stands for. -/
theorem parseStatement_text (placeholder : String) (layout : Layout) (t : TableDef) :
    parseStatement placeholder (t.text layout) = some (t.table placeholder) := by
  simp only [parseStatement, Option.bind_eq_bind, statementHead_text, Option.bind_some,
    t.closingParen_body layout, t.statementEnd_options, t.splitTopLevel_body layout,
    bodyColumns_parts, bodyKeys_parts, searchFirst_engineOption, searchFirst_charsetOption,
    searchFirst_commentOption, Option.map_map]
  rfl

/-- **Reading undoes writing.**  Every canonical table, however its statement is laid out and
whatever prefix its name is stripped of, is the one table that is read from its statement: with
its name, its columns and its keys in their order, and its options. -/
theorem parseTables_text (placeholder : String) (layout : Layout) (t : TableDef) :
    parseTables placeholder (String.ofList (t.text layout)) = [t.table placeholder] := by
  rw [parseTables, String.toList_ofList, t.segments_text layout, List.filterMap_cons,
    parseStatement_text]
  rfl

/-- A canonical table as it is written. -/
example :
    let id : Word := ⟨"id".toList, by decide, by decide⟩
    let column : ColumnDef :=
      { name := id
        type := ⟨⟨"int".toList, by decide, by decide⟩, some ⟨"11".toList, by decide⟩, [.unsigned]⟩
        notNull := true
        default := some (.literal ⟨"0".toList, by decide, by decide, by decide⟩)
        autoIncrement := false
        comment := none }
    let key : KeyDef := ⟨.index id, [⟨id, .backtick, none, some .desc⟩], by simp⟩
    let table : TableDef :=
      { name := ⟨"?:items".toList, by decide, by decide, by decide⟩
        columns := [column]
        keys := [key]
        engine := none
        charset := some ⟨⟨"utf8".toList, by decide, by decide⟩, by decide⟩
        comment := none }
    table.text ⟨false, .backtick, [' '], by decide⟩
      = ("CREATE TABLE \x60?:items\x60 ( \x60id\x60 int(11) unsigned NOT NULL DEFAULT '0', " ++
        "KEY \x60id\x60 (\x60id\x60 DESC) ) DEFAULT CHARSET=utf8;").toList := by
  decide

end CodeIndex.Sql
