import CodeIndex.Proofs.Sql.CommentFree
import CodeIndex.Proofs.Sql.Silence

/-!
# Canonical definitions

The definitions an installation script is made of, as data: a table with its columns, keys and
options, in which each text obeys the rules of the place it stands at.  A definition is written
as a statement and stands for a table record; that reading undoes writing is the subject of
`CodeIndex.Proofs.Sql.RoundTrip`.

Words and names are free, but literals, bare defaults and option words are looked through by
the searches for clauses and must not hold what those look for.

* `TableDef.text` : a table written as a statement, in a given layout.
* `TableDef.table` : the record that it stands for.
-/

namespace CodeIndex.Sql

open Text

/-- The single words that a search looks for. -/
def searchedKeywords : List String :=
  ["DEFAULT", "AUTO_INCREMENT", "COMMENT", "ENGINE", "CHARSET"]

/-- The pairs of words that a search looks for. -/
def searchedPhrases : List (String × String) :=
  [("CREATE", "TABLE"), ("NOT", "NULL"), ("CHARACTER", "SET")]

/-- The text holds, in any letter case, nothing that a search looks for. -/
structure Quiet (cs : List Char) : Prop where
  keywords : ∀ word ∈ searchedKeywords, Silent (keyword word) cs []
  phrases : ∀ words ∈ searchedPhrases, Silent (phrase words.1 words.2) cs []

instance (cs : List Char) : Decidable (Quiet cs) :=
  decidable_of_iff ((∀ word ∈ searchedKeywords, Silent (keyword word) cs []) ∧
      ∀ words ∈ searchedPhrases, Silent (phrase words.1 words.2) cs [])
    ⟨fun h => ⟨h.1, h.2⟩, fun h => ⟨h.keywords, h.phrases⟩⟩

/-- A non-empty run of word characters. -/
structure Word where
  chars : List Char
  ne_nil : chars ≠ []
  isWord : ∀ c ∈ chars, isWordChar c = true

/-- A word that no search takes for something else. -/
structure OptionWord extends Word where
  quiet : Quiet chars

/-- A table name: not empty, without blanks, quotes, brackets, parentheses and comment marks. -/
structure TableName where
  chars : List Char
  ne_nil : chars ≠ []
  isName : ∀ c ∈ chars, isBlank c = false ∧ c ∉ ['\'', '"', '\x60', '[', ']', '(', ')']
  free : CommentFree chars

/-- The text of a single-quoted literal. -/
structure Literal where
  chars : List Char
  isText : ∀ c ∈ chars, c ≠ '\'' ∧ c ≠ '\\'
  free : CommentFree chars
  quiet : Quiet chars

/-- A default without quotes: a word or a number with sign, point and exponent. -/
structure Bare where
  chars : List Char
  ne_nil : chars ≠ []
  isBare : ∀ c ∈ chars, isWordChar c = true ∨ c ∈ ['+', '-', '.']
  free : CommentFree chars
  quiet : Quiet chars

/-- The parameters of a type: digits and commas. -/
structure TypeParams where
  chars : List Char
  isList : ∀ c ∈ chars, isDecimal c = true ∨ c = ','

/-- The words that may follow a numeric type. -/
inductive TypeModifier where
  | unsigned
  | signed
  | zerofill

/-- A type: a word, its parameters and its modifiers. -/
structure ColumnType where
  word : Word
  params : Option TypeParams
  modifiers : List TypeModifier

/-- A default value. -/
inductive DefaultValue where
  | bare (value : Bare)
  | literal (value : Literal)

/-- A column. -/
structure ColumnDef where
  name : Word
  type : ColumnType
  notNull : Bool
  default : Option DefaultValue
  autoIncrement : Bool
  comment : Option Literal

/-- How an identifier is written. -/
inductive Quoting where
  | bare
  | backtick
  | double

/-- The size of a column in a key. -/
structure KeySize where
  chars : List Char
  ne_nil : chars ≠ []
  isDigits : ∀ c ∈ chars, isDecimal c = true

/-- The order of a column in a key. -/
inductive SortOrder where
  | asc
  | desc

/-- A column of a key. -/
structure KeyPart where
  column : Word
  quoting : Quoting
  size : Option KeySize
  order : Option SortOrder

/-- The head of a key: a primary key has no name, the others have one. -/
inductive KeyHead where
  | primary
  | unique (name : Word)
  | fulltext (name : Word)
  | index (name : Word)

/-- A key over at least one column. -/
structure KeyDef where
  head : KeyHead
  parts : List KeyPart
  ne_nil : parts ≠ []

/-- A table. -/
structure TableDef where
  name : TableName
  columns : List ColumnDef
  keys : List KeyDef
  engine : Option OptionWord
  charset : Option OptionWord
  comment : Option Literal

/-- How a statement is laid out: whether it says `IF NOT EXISTS`, how it writes the name, and
the blanks around the parts of its body. -/
structure Layout where
  ifNotExists : Bool
  quoting : Quoting
  gap : List Char
  isGap : ∀ c ∈ gap, isBlank c = true

/-- A word has no blanks. -/
theorem Word.not_blank (word : Word) : ∀ c ∈ word.chars, isBlank c = false :=
  fun c hc => isBlank_of_isWordChar (word.isWord c hc)

/-- A bare default has no blanks. -/
theorem Bare.not_blank (value : Bare) : ∀ c ∈ value.chars, isBlank c = false := by
  intro c hc
  rcases value.isBare c hc with hword | hsign
  · exact isBlank_of_isWordChar hword
  · simp only [List.mem_cons, List.not_mem_nil, or_false] at hsign
    rcases hsign with rfl | rfl | rfl <;> decide

/-! ## Writing -/

/-- The quote of an identifier. -/
def Quoting.mark : Quoting → List Char
  | .bare => []
  | .backtick => ['\x60']
  | .double => ['"']

/-- A modifier as it is written. -/
def TypeModifier.text : TypeModifier → List Char
  | .unsigned => "unsigned".toList
  | .signed => "signed".toList
  | .zerofill => "zerofill".toList

/-- The parameters of a type as they are written. -/
def TypeParams.text : Option TypeParams → List Char
  | none => []
  | some params => '(' :: (params.chars ++ [')'])

/-- The modifiers of a type as they are written. -/
def TypeModifier.texts (modifiers : List TypeModifier) : List Char :=
  modifiers.flatMap fun modifier => ' ' :: modifier.text

/-- A type as it is written. -/
def ColumnType.text (type : ColumnType) : List Char :=
  type.word.chars ++ (TypeParams.text type.params ++ TypeModifier.texts type.modifiers)

/-- A literal as it is written. -/
def Literal.text (literal : Literal) : List Char := '\'' :: (literal.chars ++ ['\''])

/-- A default value as it is written. -/
def DefaultValue.text : DefaultValue → List Char
  | .bare value => value.chars
  | .literal value => value.text

/-- The clause that a column is not null. -/
def notNullClause : Bool → List Char
  | true => " NOT NULL".toList
  | false => []

/-- The clause of a default. -/
def defaultClause : Option DefaultValue → List Char
  | none => []
  | some value => " DEFAULT ".toList ++ value.text

/-- The clause that a column counts up. -/
def autoIncrementClause : Bool → List Char
  | true => " AUTO_INCREMENT".toList
  | false => []

/-- The clause of a comment on a column. -/
def commentClause : Option Literal → List Char
  | none => []
  | some comment => " COMMENT ".toList ++ comment.text

/-- The clauses of a column but its comment. -/
def ColumnDef.attributes (column : ColumnDef) : List Char :=
  notNullClause column.notNull ++
    (defaultClause column.default ++ autoIncrementClause column.autoIncrement)

/-- A column as it is written. -/
def ColumnDef.text (column : ColumnDef) : List Char :=
  '\x60' :: (column.name.chars ++ '\x60' :: ' ' :: (column.type.text ++
    (column.attributes ++ commentClause column.comment)))

/-- The size of a column in a key as it is written. -/
def KeySize.text : Option KeySize → List Char
  | none => []
  | some size => '(' :: (size.chars ++ [')'])

/-- The order of a column in a key as it is written. -/
def SortOrder.text : Option SortOrder → List Char
  | none => []
  | some .asc => " ASC".toList
  | some .desc => " DESC".toList

/-- A column of a key as it is written. -/
def KeyPart.text (part : KeyPart) : List Char :=
  part.quoting.mark ++ (part.column.chars ++ (part.quoting.mark ++
    (KeySize.text part.size ++ SortOrder.text part.order)))

/-- The name of a key as it is written. -/
def keyNameText (name : Word) : List Char := '\x60' :: (name.chars ++ "\x60 ".toList)

/-- The head of a key as it is written. -/
def KeyHead.text : KeyHead → List Char
  | .primary => "PRIMARY KEY ".toList
  | .unique name => "UNIQUE KEY ".toList ++ keyNameText name
  | .fulltext name => "FULLTEXT KEY ".toList ++ keyNameText name
  | .index name => "KEY ".toList ++ keyNameText name

/-- The list of a key as it is written. -/
def KeyDef.list (key : KeyDef) : List Char := join ", ".toList (key.parts.map KeyPart.text)

/-- A key as it is written. -/
def KeyDef.text (key : KeyDef) : List Char := key.head.text ++ '(' :: (key.list ++ [')'])

/-- The option of a storage engine. -/
def engineText : Option OptionWord → List Char
  | none => []
  | some engine => " ENGINE=".toList ++ engine.chars

/-- The option of a character set. -/
def charsetText : Option OptionWord → List Char
  | none => []
  | some charset => " DEFAULT CHARSET=".toList ++ charset.chars

/-- The option of a comment on a table. -/
def tableCommentText : Option Literal → List Char
  | none => []
  | some comment => " COMMENT=".toList ++ comment.text

/-- The options of a table as they are written. -/
def TableDef.options (t : TableDef) : List Char :=
  engineText t.engine ++ (charsetText t.charset ++ tableCommentText t.comment)

/-- The parts of the body of a table: its columns, then its keys. -/
def TableDef.parts (t : TableDef) : List (List Char) :=
  t.columns.map ColumnDef.text ++ t.keys.map KeyDef.text

/-- The body of a table as it is written. -/
def TableDef.body (layout : Layout) (t : TableDef) : List Char :=
  layout.gap ++ join (',' :: layout.gap) t.parts ++ layout.gap

/-- The words before the name of a table. -/
def Layout.front (layout : Layout) : List Char :=
  if layout.ifNotExists then "CREATE TABLE IF NOT EXISTS ".toList else "CREATE TABLE ".toList

/-- The name of a table as it is written. -/
def Layout.nameText (layout : Layout) (name : TableName) : List Char :=
  layout.quoting.mark ++ (name.chars ++ layout.quoting.mark)

/-- A table written as a statement. -/
def TableDef.text (layout : Layout) (t : TableDef) : List Char :=
  layout.front ++ (layout.nameText t.name ++
    (" (".toList ++ (t.body layout ++ ')' :: (t.options ++ [';']))))

/-! ## What is written -/

/-- The column that a definition stands for. -/
def ColumnDef.column (column : ColumnDef) : Column where
  name := String.ofList column.name.chars
  type := String.ofList column.type.text
  nullable := !column.notNull
  default := column.default.map fun value => String.ofList value.text
  autoIncrement := column.autoIncrement
  comment := column.comment.map fun comment => String.ofList comment.chars

/-- The name and the kind of a key. -/
def KeyHead.record : KeyHead → String × KeyKind
  | .primary => ("PRIMARY", .primary)
  | .unique name => (String.ofList name.chars, .unique)
  | .fulltext name => (String.ofList name.chars, .fulltext)
  | .index name => (String.ofList name.chars, .index)

/-- The key that a definition stands for. -/
def KeyDef.key (key : KeyDef) : Key where
  name := key.head.record.1
  kind := key.head.record.2
  columns := key.parts.map fun part => String.ofList part.column.chars

/-- The table that a definition stands for under a placeholder. -/
def TableDef.table (t : TableDef) (placeholder : String) : Table where
  qualifiedName := String.ofList t.name.chars
  shortName := stripTablePrefix (String.ofList t.name.chars) placeholder
  columns := t.columns.map ColumnDef.column
  keys := t.keys.map KeyDef.key
  engine := t.engine.map fun engine => String.ofList engine.chars
  charset := t.charset.map fun charset => String.ofList charset.chars
  comment := t.comment.map fun comment => String.ofList comment.chars

end CodeIndex.Sql
