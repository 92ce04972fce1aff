import CodeIndex.Proofs.Sql.Canonical
import CodeIndex.Proofs.Sql.Scan

/-!
# The parts of a written body

Every written column and key closes the quotes and parentheses that it opens, has its commas in
parentheses, and has no blanks at its ends.  So the scans find the body of a written table and
cut it into the columns and keys that it was joined from.

* `TableDef.closingParen_body` : the body ends where it was written to end.
* `TableDef.splitTopLevel_body` : its parts are the written columns and keys.
* `KeyDef.splitTopLevel_list` : the parts of a key's list are its written columns.
* `TableDef.statementEnd_options` : the options end at the semicolon.
-/

namespace CodeIndex.Sql

open Text

/-- A character that no scan looks at. -/
def isPlain (c : Char) : Bool := !isQuote c && c != '(' && c != ')' && c != ','

/-- Plain characters are balanced. -/
theorem balanced_of_isPlain {commas : Bool} {w : List Char} (h : ∀ c ∈ w, isPlain c = true) :
    Balanced commas w := by
  induction w with
  | nil => exact .nil
  | cons c w ih =>
      have hc := h c List.mem_cons_self
      simp only [isPlain, Bool.and_eq_true, Bool.not_eq_true', bne_iff_ne] at hc
      obtain ⟨⟨⟨hquote, hopen⟩, hclose⟩, hcomma⟩ := hc
      exact .plain hquote hopen hclose (fun h => absurd h hcomma)
        (ih fun d hd => h d (List.mem_cons_of_mem _ hd))

/-- A word character is plain. -/
theorem isPlain_of_isWordChar {c : Char} (h : isWordChar c = true) : isPlain c = true := by
  have hcomma : c ≠ ',' := ne_of_isWordChar h (by decide)
  obtain ⟨hquote, hopen, hclose⟩ := plain_of_class (by decide) h
  simp [isPlain, hquote, hopen, hclose, hcomma]

/-- A word is balanced. -/
theorem Word.balanced (word : Word) {commas : Bool} : Balanced commas word.chars :=
  balanced_of_isPlain fun c hc => isPlain_of_isWordChar (word.isWord c hc)

/-- A written literal is balanced. -/
theorem Literal.balanced (text : Literal) {commas : Bool} : Balanced commas text.text :=
  .quoted rfl text.isText .nil

/-- A word in quotes is balanced. -/
theorem Word.balanced_quoted (word : Word) {q : Char} (hq : isQuote q = true) {commas : Bool}
    {rest : List Char} (h : Balanced commas rest) :
    Balanced commas (q :: (word.chars ++ q :: rest)) := by
  refine .quoted hq ?_ h
  intro c hc
  have hword := word.isWord c hc
  refine ⟨ne_of_isWordChar hword ?_, ne_of_isWordChar hword (by decide)⟩
  simp only [isQuote, Bool.or_eq_true, decide_eq_true_eq] at hq
  rcases hq with (rfl | rfl) | rfl <;> decide

/-- Digits and commas in parentheses are balanced. -/
theorem balanced_digits {digits : List Char}
    (hdigits : ∀ c ∈ digits, isDecimal c = true ∨ c = ',') {commas : Bool} :
    Balanced commas ('(' :: (digits ++ [')'])) := by
  refine .paren ?_ .nil
  induction digits with
  | nil => exact .nil
  | cons c digits ih =>
      have hrest := ih fun d hd => hdigits d (List.mem_cons_of_mem _ hd)
      have hne : ∀ d, isDecimal d = false → d ≠ ',' → c ≠ d := by
        rintro d hd hcomma rfl
        rcases hdigits c List.mem_cons_self with hdec | rfl
        · rw [hd] at hdec
          cases hdec
        · exact hcomma rfl
      refine .plain ?_ (hne '(' (by decide) (by decide)) (hne ')' (by decide) (by decide))
        (fun _ => rfl) hrest
      simp [isQuote, hne '\'' (by decide) (by decide), hne '"' (by decide) (by decide),
        hne '\x60' (by decide) (by decide)]

/-! ## Columns -/

/-- A type is balanced. -/
theorem ColumnType.balanced (type : ColumnType) : Balanced false type.text := by
  refine type.word.balanced.append (.append ?_ ?_)
  · cases type.params with
    | none => exact .nil
    | some params => exact balanced_digits params.isList
  · apply balanced_of_isPlain
    have hplain : ∀ modifier : TypeModifier, ∀ c ∈ ' ' :: modifier.text, isPlain c = true := by
      intro modifier
      cases modifier <;> decide
    intro c hc
    obtain ⟨modifier, -, hmem⟩ := List.mem_flatMap.mp hc
    exact hplain modifier c hmem

/-- A default is balanced. -/
theorem DefaultValue.balanced (value : DefaultValue) : Balanced false value.text := by
  cases value with
  | literal text => exact text.balanced
  | bare value =>
      apply balanced_of_isPlain
      intro c hc
      rcases value.isBare c hc with hword | hsign
      · exact isPlain_of_isWordChar hword
      · simp only [List.mem_cons, List.not_mem_nil, or_false] at hsign
        rcases hsign with rfl | rfl | rfl <;> decide

/-- The clauses of a column are balanced. -/
theorem ColumnDef.balanced_clauses (column : ColumnDef) :
    Balanced false (column.attributes ++ commentClause column.comment) := by
  refine .append (.append ?_ (.append ?_ ?_)) ?_
  · cases column.notNull with
    | false => exact .nil
    | true => exact balanced_of_isPlain (by decide)
  · cases column.default with
    | none => exact .nil
    | some value => exact (balanced_of_isPlain (by decide)).append value.balanced
  · cases column.autoIncrement with
    | false => exact .nil
    | true => exact balanced_of_isPlain (by decide)
  · cases column.comment with
    | none => exact .nil
    | some text => exact (balanced_of_isPlain (by decide)).append text.balanced

/-- A written column is balanced. -/
theorem ColumnDef.balanced (column : ColumnDef) : Balanced false column.text :=
  column.name.balanced_quoted rfl (.plain rfl (by decide) (by decide) (by decide)
    (column.type.balanced.append column.balanced_clauses))

/-- A text whose last character, if it has one, is no blank. -/
def EndsWell (cs : List Char) : Prop := ∀ c, cs.getLast? = some c → isBlank c = false

/-- Texts that end well do so one after the other. -/
theorem EndsWell.append {u w : List Char} (hu : EndsWell u) (hw : EndsWell w) :
    EndsWell (u ++ w) := by
  intro c hc
  rw [List.getLast?_append] at hc
  cases hlast : w.getLast? with
  | none =>
      rw [hlast] at hc
      exact hu c hc
  | some d =>
      rw [hlast] at hc
      exact hw c (hlast.trans hc)

/-- What stands in front of a text that ends well does not matter, if there is a text. -/
theorem endsWell_append {w : List Char} (hne : w ≠ []) (hw : EndsWell w) (u : List Char) :
    EndsWell (u ++ w) := by
  intro c hc
  rw [List.getLast?_append_of_ne_nil _ hne] at hc
  exact hw c hc

/-- A text that ends in a given character. -/
theorem endsWell_concat (cs : List Char) {c : Char} (hc : isBlank c = false) :
    EndsWell (cs ++ [c]) := by
  intro d hd
  rw [List.getLast?_concat] at hd
  cases hd
  exact hc

/-- A text without blanks ends well. -/
theorem endsWell_of_not_blank {cs : List Char} (h : ∀ c ∈ cs, isBlank c = false) : EndsWell cs :=
  fun c hc => h c (List.mem_of_getLast? hc)

/-- A written literal ends well. -/
theorem Literal.endsWell (text : Literal) : EndsWell text.text :=
  endsWell_concat ('\'' :: text.chars) (by decide)

/-- A written literal is not empty. -/
theorem Literal.text_ne_nil (text : Literal) : text.text ≠ [] := List.cons_ne_nil _ _

/-- A written default ends well. -/
theorem DefaultValue.endsWell (value : DefaultValue) : EndsWell value.text := by
  cases value with
  | bare value => exact endsWell_of_not_blank value.not_blank
  | literal text => exact text.endsWell

/-- A written default is not empty. -/
theorem DefaultValue.text_ne_nil (value : DefaultValue) : value.text ≠ [] := by
  cases value with
  | bare value => exact value.ne_nil
  | literal text => exact text.text_ne_nil

/-- A type ends well. -/
theorem ColumnType.endsWell (type : ColumnType) : EndsWell type.text := by
  refine .append (endsWell_of_not_blank type.word.not_blank) (.append ?_ ?_)
  · cases type.params with
    | none => exact fun c hc => nomatch hc
    | some params => exact endsWell_concat ('(' :: params.chars) (by decide)
  · have hmodifier : ∀ modifier : TypeModifier, EndsWell (' ' :: modifier.text) := by
      intro modifier
      cases modifier with
      | unsigned => exact endsWell_concat " unsigne".toList (by decide)
      | signed => exact endsWell_concat " signe".toList (by decide)
      | zerofill => exact endsWell_concat " zerofil".toList (by decide)
    unfold TypeModifier.texts
    induction type.modifiers with
    | nil => exact fun c hc => nomatch hc
    | cons modifier modifiers ih =>
        rw [List.flatMap_cons]
        exact (hmodifier modifier).append ih

/-- The clauses of a column end well. -/
theorem ColumnDef.endsWell_clauses (column : ColumnDef) :
    EndsWell (column.attributes ++ commentClause column.comment) := by
  have hnil : EndsWell [] := fun c hc => nomatch hc
  refine .append (.append ?_ (.append ?_ ?_)) ?_
  · cases column.notNull with
    | false => exact hnil
    | true => exact endsWell_concat " NOT NUL".toList (by decide)
  · cases column.default with
    | none => exact hnil
    | some value => exact endsWell_append value.text_ne_nil value.endsWell " DEFAULT ".toList
  · cases column.autoIncrement with
    | false => exact hnil
    | true => exact endsWell_concat " AUTO_INCREMEN".toList (by decide)
  · cases column.comment with
    | none => exact hnil
    | some text => exact endsWell_append text.text_ne_nil text.endsWell " COMMENT ".toList

/-- A written column has no blanks at its ends. -/
theorem ColumnDef.trimmed (column : ColumnDef) : Trimmed column.text where
  ne_nil := by simp [ColumnDef.text]
  head := by
    intro c hc
    cases hc
    decide
  last := by
    have htail : EndsWell (column.type.text ++
        (column.attributes ++ commentClause column.comment)) :=
      column.type.endsWell.append column.endsWell_clauses
    have hne : column.type.text ++ (column.attributes ++ commentClause column.comment) ≠ [] := by
      simp [ColumnType.text, column.type.word.ne_nil]
    have hfront : column.text = ('\x60' :: (column.name.chars ++ "\x60 ".toList)) ++
        (column.type.text ++ (column.attributes ++ commentClause column.comment)) := by
      simp [ColumnDef.text]
    rw [hfront]
    exact endsWell_append hne htail _

/-! ## Keys -/

/-- A written column of a key is balanced. -/
theorem KeyPart.balanced (part : KeyPart) {commas : Bool} : Balanced commas part.text := by
  have hsize : Balanced commas (KeySize.text part.size) := by
    cases part.size with
    | none => exact .nil
    | some size => exact balanced_digits fun c hc => .inl (size.isDigits c hc)
  have horder : Balanced commas (SortOrder.text part.order) := by
    cases part.order with
    | none => exact .nil
    | some order => cases order <;> exact balanced_of_isPlain (by decide)
  have hsuffix := hsize.append horder
  unfold KeyPart.text
  cases part.quoting with
  | bare => exact part.column.balanced.append hsuffix
  | backtick => exact part.column.balanced_quoted rfl hsuffix
  | double => exact part.column.balanced_quoted rfl hsuffix

/-- A written column of a key has no blanks at its ends. -/
theorem KeyPart.trimmed (part : KeyPart) : Trimmed part.text := by
  have hnil : EndsWell [] := fun c hc => nomatch hc
  have hmark : EndsWell part.quoting.mark := by
    cases part.quoting with
    | bare => exact hnil
    | backtick => exact endsWell_concat [] (by decide)
    | double => exact endsWell_concat [] (by decide)
  have hsize : EndsWell (KeySize.text part.size) := by
    cases part.size with
    | none => exact hnil
    | some size => exact endsWell_concat ('(' :: size.chars) (by decide)
  have horder : EndsWell (SortOrder.text part.order) := by
    cases part.order with
    | none => exact hnil
    | some order =>
        cases order with
        | asc => exact endsWell_concat " AS".toList (by decide)
        | desc => exact endsWell_concat " DES".toList (by decide)
  refine ⟨?_, ?_, ?_⟩
  · simp [KeyPart.text, part.column.ne_nil]
  · intro c hc
    unfold KeyPart.text at hc
    cases hquoting : part.quoting with
    | bare =>
        rw [hquoting] at hc
        obtain ⟨d, rest, hchars⟩ := List.exists_cons_of_ne_nil part.column.ne_nil
        rw [hchars] at hc
        cases hc
        exact part.column.not_blank c (by rw [hchars]; exact List.mem_cons_self)
    | backtick =>
        rw [hquoting] at hc
        cases hc
        decide
    | double =>
        rw [hquoting] at hc
        cases hc
        decide
  · exact hmark.append ((endsWell_of_not_blank part.column.not_blank).append
      (hmark.append (hsize.append horder)))

/-- The parts of a key's list are its written columns. -/
theorem KeyDef.splitTopLevel_list (key : KeyDef) :
    splitTopLevel key.list = key.parts.map KeyPart.text := by
  have hspace : ∀ c ∈ [' '], isBlank c = true := by decide
  have hempty : ∀ c ∈ ([] : List Char), isBlank c = true := by simp
  have hparts : ∀ part ∈ key.parts.map KeyPart.text, Balanced false part ∧ Trimmed part := by
    intro part hpart
    obtain ⟨p, -, rfl⟩ := List.mem_map.mp hpart
    exact ⟨p.balanced, p.trimmed⟩
  have hsplit := splitTopLevel_join hspace hempty hparts hempty
  simpa [KeyDef.list] using hsplit

/-- The list of a key is balanced. -/
theorem KeyDef.balanced_list (key : KeyDef) : Balanced true key.list := by
  have hspace : ∀ c ∈ [' '], isBlank c = true := by decide
  refine balanced_join hspace ?_
  intro part hpart
  obtain ⟨p, -, rfl⟩ := List.mem_map.mp hpart
  exact p.balanced

/-- A written key is balanced. -/
theorem KeyDef.balanced (key : KeyDef) : Balanced false key.text := by
  have hlist : Balanced false ('(' :: (key.list ++ [')'])) := .paren key.balanced_list .nil
  have hname : ∀ name : Word, Balanced false (keyNameText name) := fun name =>
    name.balanced_quoted rfl (balanced_of_isPlain (by decide))
  refine .append ?_ hlist
  cases key.head with
  | primary => exact balanced_of_isPlain (by decide)
  | unique name => exact (balanced_of_isPlain (by decide)).append (hname name)
  | fulltext name => exact (balanced_of_isPlain (by decide)).append (hname name)
  | index name => exact (balanced_of_isPlain (by decide)).append (hname name)

/-- A written key has no blanks at its ends. -/
theorem KeyDef.trimmed (key : KeyDef) : Trimmed key.text where
  ne_nil := by simp [KeyDef.text]
  head := by
    intro c hc
    unfold KeyDef.text at hc
    cases hhead : key.head <;> rw [hhead] at hc <;> cases hc <;> decide
  last := by
    have htext : key.text = (key.head.text ++ '(' :: key.list) ++ [')'] := by
      simp [KeyDef.text]
    rw [htext]
    exact endsWell_concat _ (by decide)

/-! ## Tables -/

/-- The parts of a table are balanced and have no blanks at their ends. -/
theorem TableDef.parts_closed (t : TableDef) :
    ∀ part ∈ t.parts, Balanced false part ∧ Trimmed part := by
  intro part hpart
  rcases List.mem_append.mp hpart with hcolumn | hkey
  · obtain ⟨column, -, rfl⟩ := List.mem_map.mp hcolumn
    exact ⟨column.balanced, column.trimmed⟩
  · obtain ⟨key, -, rfl⟩ := List.mem_map.mp hkey
    exact ⟨key.balanced, key.trimmed⟩

/-- The parts of a written body are the written columns and keys. -/
theorem TableDef.splitTopLevel_body (layout : Layout) (t : TableDef) :
    splitTopLevel (t.body layout) = t.parts :=
  splitTopLevel_join layout.isGap layout.isGap t.parts_closed layout.isGap

/-- A written body is balanced. -/
theorem TableDef.balanced_body (layout : Layout) (t : TableDef) :
    Balanced true (t.body layout) := by
  have hgap : Balanced true layout.gap := balanced_of_blank layout.isGap
  have hjoin := balanced_join layout.isGap fun part hpart => (t.parts_closed part hpart).1.weaken
  exact (hgap.append hjoin).append hgap

/-- The body of a written table ends where it was written to end. -/
theorem TableDef.closingParen_body (layout : Layout) (t : TableDef) (tail : List Char) :
    closingParen (t.body layout ++ ')' :: tail) = some (t.body layout, tail) :=
  closingParen_balanced (t.balanced_body layout) tail

/-- The options of a table end at the semicolon. -/
theorem TableDef.statementEnd_options (t : TableDef) (rest : List Char) :
    statementEnd (t.options ++ ';' :: rest) = t.options := by
  have hword : ∀ (word : Word) (tail : List Char), statementEndFrom .outside (word.chars ++ tail)
      = word.chars ++ statementEndFrom .outside tail := by
    intro word tail
    apply statementEndFrom_plain
    intro c hc
    have hplain := isPlain_of_isWordChar (word.isWord c hc)
    simp only [isPlain, Bool.and_eq_true, Bool.not_eq_true'] at hplain
    exact ⟨hplain.1.1.1, ne_of_isWordChar (word.isWord c hc) (by decide)⟩
  have hengine : ∀ tail, statementEndFrom .outside (engineText t.engine ++ tail)
      = engineText t.engine ++ statementEndFrom .outside tail := by
    intro tail
    cases t.engine with
    | none => rfl
    | some engine =>
        show statementEndFrom .outside (" ENGINE=".toList ++ engine.chars ++ tail)
          = " ENGINE=".toList ++ engine.chars ++ statementEndFrom .outside tail
        rw [List.append_assoc, statementEndFrom_plain (by decide), hword, List.append_assoc]
  have hcharset : ∀ tail, statementEndFrom .outside (charsetText t.charset ++ tail)
      = charsetText t.charset ++ statementEndFrom .outside tail := by
    intro tail
    cases t.charset with
    | none => rfl
    | some charset =>
        show statementEndFrom .outside (" DEFAULT CHARSET=".toList ++ charset.chars ++ tail)
          = " DEFAULT CHARSET=".toList ++ charset.chars ++ statementEndFrom .outside tail
        rw [List.append_assoc, statementEndFrom_plain (by decide), hword, List.append_assoc]
  have hcomment : ∀ tail, statementEndFrom .outside (tableCommentText t.comment ++ tail)
      = tableCommentText t.comment ++ statementEndFrom .outside tail := by
    intro tail
    cases t.comment with
    | none => rfl
    | some text =>
        show statementEndFrom .outside (" COMMENT=".toList ++ text.text ++ tail)
          = " COMMENT=".toList ++ text.text ++ statementEndFrom .outside tail
        have hquoted := statementEndFrom_quoted rfl text.isText tail
        rw [List.append_assoc, statementEndFrom_plain (by decide), List.append_assoc]
        simpa [Literal.text] using hquoted
  have hsemi : statementEndFrom .outside (';' :: rest) = [] := rfl
  rw [statementEnd, TableDef.options, List.append_assoc, List.append_assoc, hengine, hcharset,
    hcomment, hsemi, List.append_nil]

end CodeIndex.Sql
