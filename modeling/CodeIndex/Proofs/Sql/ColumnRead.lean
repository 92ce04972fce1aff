import CodeIndex.Proofs.Sql.Atoms
import CodeIndex.Proofs.Sql.Written

/-!
# Reading back a written column

A written column starts with a quote, so that it is no key and its first word is not reserved.
Its type runs up to the clauses, none of which starts like a word of a type.  The searches for
the clauses each pass over the clauses in front of the one they look for: those are silent, the
fixed words by inspection and the values because they hold nothing that is searched for.

* `ColumnDef.parseKey_text` : a written column is no key.
* `ColumnDef.columnHead_text` : its head is its name and its type.
* `ColumnDef.parseColumn_text` : reading it gives the column that it stands for.
-/

namespace CodeIndex.Sql

open Text

/-! ## The head -/

/-- What starts with a backtick is no key. -/
theorem parseKey_backtick (cs : List Char) : parseKey ('\x60' :: cs) = none := rfl

/-- A written column is no key. -/
theorem ColumnDef.parseKey_text (column : ColumnDef) : parseKey column.text = none :=
  parseKey_backtick _

/-- The first word of a written column is its name in quotes, which is not reserved. -/
theorem ColumnDef.leader_text (column : ColumnDef) :
    ∃ leader, (words column.text).head? = some leader ∧ isReservedLeader leader = false := by
  have hleader : ∀ c ∈ '\x60' :: (column.name.chars ++ ['\x60']), isBlank c = false := by
    intro c hc
    simp only [List.mem_cons, List.mem_append, List.not_mem_nil, or_false] at hc
    rcases hc with rfl | hc | rfl
    · decide
    · exact column.name.not_blank c hc
    · decide
  have htext : column.text = ('\x60' :: (column.name.chars ++ ['\x60'])) ++ ' ' ::
      (column.type.text ++ (column.attributes ++ commentClause column.comment)) := by
    simp [ColumnDef.text]
  refine ⟨'\x60' :: (column.name.chars ++ ['\x60']), ?_, rfl⟩
  rw [htext, words_append_blank (by decide), words_of_not_blank hleader (by simp)]
  rfl

/-- A modifier of a type is a word of a type. -/
theorem TypeModifier.typeWord_text (modifier : TypeModifier) (rest : List Char) :
    typeWord (' ' :: (modifier.text ++ rest)) = some rest := by
  cases modifier <;> rfl

/-- No clause starts with a word of a type. -/
theorem IsClause.typeWord {cs : List Char} (h : IsClause cs) : typeWord cs = none := by
  rcases h with rfl | ⟨c, rest, rfl, hc⟩
  · rfl
  · simp only [clauseLetters, List.mem_cons, List.not_mem_nil, or_false] at hc
    rcases hc with rfl | rfl | rfl | rfl <;> rfl

/-- The modifiers of a type are read up to the clauses. -/
theorem typeWords_texts {modifiers : List TypeModifier} {fuel : Nat}
    (hfuel : modifiers.length ≤ fuel) {rest : List Char} (hrest : typeWord rest = none) :
    typeWords fuel (TypeModifier.texts modifiers ++ rest) = rest := by
  induction modifiers generalizing fuel with
  | nil =>
      cases fuel with
      | zero => rfl
      | succ fuel =>
          show typeWords (fuel + 1) rest = rest
          rw [typeWords, hrest]
  | cons modifier modifiers ih =>
      cases fuel with
      | zero => simp at hfuel
      | succ fuel =>
          have htext : TypeModifier.texts (modifier :: modifiers) ++ rest
              = ' ' :: (modifier.text ++ (TypeModifier.texts modifiers ++ rest)) := by
            simp [TypeModifier.texts]
          rw [htext, typeWords, modifier.typeWord_text]
          exact ih (by simpa using hfuel)

/-- There are fewer modifiers than characters in them. -/
theorem TypeModifier.length_le_texts (modifiers : List TypeModifier) :
    modifiers.length ≤ (texts modifiers).length := by
  induction modifiers with
  | nil => simp
  | cons modifier modifiers ih =>
      rw [texts] at ih
      rw [texts, List.flatMap_cons, List.length_append, List.length_cons, List.length_cons]
      omega

/-- Modifiers and clauses end a word, and no list starts with them. -/
theorem TypeModifier.texts_append_head (modifiers : List TypeModifier) {rest : List Char}
    (hrest : IsClause rest) : isBoundary (texts modifiers ++ rest).head? = true ∧
      symbol '(' (trimStart (texts modifiers ++ rest)) = none := by
  cases modifiers with
  | nil =>
      rcases hrest with rfl | ⟨c, more, rfl, hc⟩
      · exact ⟨rfl, rfl⟩
      · simp only [clauseLetters, List.mem_cons, List.not_mem_nil, or_false] at hc
        rcases hc with rfl | rfl | rfl | rfl <;> exact ⟨rfl, rfl⟩
  | cons modifier modifiers => cases modifier <;> exact ⟨rfl, rfl⟩

/-- A type is read up to the clauses. -/
theorem ColumnType.afterType_text (type : ColumnType) {rest : List Char}
    (hrest : IsClause rest) : afterType (type.text ++ rest) = some rest := by
  have hmodifiers : ∀ fuel, (TypeModifier.texts type.modifiers ++ rest).length ≤ fuel →
      typeWords fuel (TypeModifier.texts type.modifiers ++ rest) = rest := by
    intro fuel hfuel
    have hlength := TypeModifier.length_le_texts type.modifiers
    rw [List.length_append] at hfuel
    exact typeWords_texts (by omega) hrest.typeWord
  obtain ⟨hboundary, hlist⟩ := TypeModifier.texts_append_head type.modifiers hrest
  rw [ColumnType.text, List.append_assoc, List.append_assoc]
  cases type.params with
  | none =>
      simp [TypeParams.text, afterType, type.word.read hboundary, hlist, hmodifiers]
  | some params =>
      have hclose : ∀ c ∈ params.chars, c ≠ ')' := by
        rintro c hc rfl
        exact absurd (params.isList _ hc) (by decide)
      have htext : TypeParams.text (some params) ++ (TypeModifier.texts type.modifiers ++ rest)
          = '(' :: (params.chars ++ ')' :: (TypeModifier.texts type.modifiers ++ rest)) := by
        simp [TypeParams.text]
      have hread := upToParen_append hclose (TypeModifier.texts type.modifiers ++ rest)
      have htrim := trimStart_cons_of_not_blank (c := '(') (by decide)
        (params.chars ++ ')' :: (TypeModifier.texts type.modifiers ++ rest))
      rw [htext]
      simp [afterType, type.word.read, isBoundary, show isWordChar '(' = false from by decide,
        htrim, symbol, hread, hmodifiers]

/-- The word of a type and its parameters have no blanks. -/
theorem ColumnType.not_blank (type : ColumnType) :
    ∀ c ∈ type.word.chars ++ TypeParams.text type.params, isBlank c = false := by
  intro c hc
  rcases List.mem_append.mp hc with hword | hparams
  · exact type.word.not_blank c hword
  · cases hopt : type.params with
    | none =>
        rw [hopt] at hparams
        cases hparams
    | some params =>
        rw [hopt] at hparams
        simp only [TypeParams.text, List.mem_cons, List.mem_append, List.not_mem_nil,
          or_false] at hparams
        rcases hparams with rfl | hdigit | rfl
        · decide
        · rcases params.isList c hdigit with hdec | rfl
          · exact isBlank_of_isDecimal hdec
          · decide
        · decide

/-- Modifiers are words of their own. -/
theorem words_append_texts {front : List Char} (hfront : ∀ c ∈ front, isBlank c = false)
    (hne : front ≠ []) (modifiers : List TypeModifier) :
    words (front ++ TypeModifier.texts modifiers) = front :: modifiers.map TypeModifier.text := by
  induction modifiers generalizing front with
  | nil => simpa [TypeModifier.texts] using words_of_not_blank hfront hne
  | cons modifier modifiers ih =>
      have hmodifier : ∀ c ∈ modifier.text, isBlank c = false := by
        cases modifier <;> decide
      have hmodifierNe : modifier.text ≠ [] := by
        cases modifier <;> decide
      have htext : front ++ TypeModifier.texts (modifier :: modifiers)
          = front ++ ' ' :: (modifier.text ++ TypeModifier.texts modifiers) := by
        simp [TypeModifier.texts]
      rw [htext, words_append_blank (by decide), words_of_not_blank hfront hne,
        ih hmodifier hmodifierNe]
      rfl

/-- Modifiers are written with a space before each. -/
theorem join_texts (front : List Char) (modifiers : List TypeModifier) :
    join [' '] (front :: modifiers.map TypeModifier.text)
      = front ++ TypeModifier.texts modifiers := by
  induction modifiers generalizing front with
  | nil => simp [TypeModifier.texts, join]
  | cons modifier modifiers ih =>
      rw [List.map_cons, join, ih modifier.text]
      · simp [TypeModifier.texts]
      · simp

/-- The words of a type with a single space between them are the type. -/
theorem ColumnType.join_words (type : ColumnType) : join [' '] (words type.text) = type.text := by
  have hne : type.word.chars ++ TypeParams.text type.params ≠ [] := by
    simp [type.word.ne_nil]
  rw [ColumnType.text, ← List.append_assoc, words_append_texts type.not_blank hne, join_texts]

/-- The text of a column behind its type. -/
def ColumnDef.clauses (column : ColumnDef) : List Char :=
  column.attributes ++ commentClause column.comment

/-- It is empty or starts with a clause. -/
theorem ColumnDef.isClause_clauses (column : ColumnDef) : IsClause column.clauses :=
  ((isClause_notNull _).append ((isClause_default _).append (isClause_autoIncrement _))).append
    (isClause_comment _)

/-- The head of a written column is its name, its type and the clauses. -/
theorem ColumnDef.columnHead_text (column : ColumnDef) :
    columnHead column.text = some (column.name.chars, column.type.text, column.clauses) := by
  have hname : word (column.name.chars ++ '\x60' :: ' ' :: (column.type.text ++ column.clauses))
      = some (column.name.chars, '\x60' :: ' ' :: (column.type.text ++ column.clauses)) :=
    column.name.read rfl
  have htyped : trimStart (column.type.text ++ column.clauses)
      = column.type.text ++ column.clauses := by
    obtain ⟨c, rest, hchars⟩ := List.exists_cons_of_ne_nil column.type.word.ne_nil
    have hc : isBlank c = false := column.type.word.not_blank c (by rw [hchars]; simp)
    rw [ColumnType.text, hchars]
    exact trimStart_cons_of_not_blank hc _
  have htype := column.type.afterType_text column.isClause_clauses
  have hlength : (column.type.text ++ column.clauses).length - column.clauses.length
      = column.type.text.length := by
    rw [List.length_append, Nat.add_sub_cancel]
  show columnHead ('\x60' :: (column.name.chars ++ '\x60' :: ' ' ::
    (column.type.text ++ column.clauses))) = _
  simp only [columnHead, optionalMark, List.contains_cons, beq_self_eq_true, Bool.true_or,
    if_true, hname, Option.bind_eq_bind, Option.bind_some, blanks, htyped]
  rw [if_pos (by decide), Option.bind_some, htype, Option.bind_some, hlength, List.take_left']
  rfl

/-! ## The clauses -/

/-- A text that is empty or starts with a space. -/
def Spaced (cs : List Char) : Prop := ∀ c, cs.head? = some c → c = ' '

/-- A space ends a word. -/
theorem Spaced.boundary {cs : List Char} (h : Spaced cs) : isBoundary cs.head? = true := by
  cases hhead : cs.head? with
  | none => rfl
  | some c =>
      rw [h c hhead]
      rfl

/-- A clause before a text that starts with a space. -/
theorem IsClause.spaced {cs rest : List Char} (h : IsClause cs) (hrest : Spaced rest) :
    Spaced (cs ++ rest) := by
  rcases h with rfl | ⟨c, more, rfl, -⟩
  · exact hrest
  · intro d hd
    cases hd
    rfl

/-- The other clauses do not start in `NOT NULL`. -/
theorem silent_notNull {word : String} (hword : word ∈ ["DEFAULT", "AUTO_INCREMENT", "COMMENT"])
    (flag : Bool) {rest : List Char} (hrest : Spaced rest) :
    Silent (keyword word) (notNullClause flag) rest := by
  have hfixed : ∀ word ∈ ["DEFAULT", "AUTO_INCREMENT", "COMMENT"],
      IsKeyword word ∧ Silent (keyword word) " NOT NULL".toList [] := by decide
  obtain ⟨hkey, hsilent⟩ := hfixed word hword
  cases flag with
  | false => trivial
  | true => exact (silent_keyword_iff hkey hrest.boundary).mpr hsilent

/-- The other clauses do not start in `AUTO_INCREMENT`. -/
theorem silent_autoIncrement {word : String} (hword : word ∈ ["DEFAULT", "COMMENT", "NOT"])
    (flag : Bool) {rest : List Char} (hrest : Spaced rest) :
    Silent (keyword word) (autoIncrementClause flag) rest := by
  have hfixed : ∀ word ∈ ["DEFAULT", "COMMENT", "NOT"],
      IsKeyword word ∧ Silent (keyword word) " AUTO_INCREMENT".toList [] := by decide
  obtain ⟨hkey, hsilent⟩ := hfixed word hword
  cases flag with
  | false => trivial
  | true => exact (silent_keyword_iff hkey hrest.boundary).mpr hsilent

/-- The other clauses do not start in the word `DEFAULT`. -/
theorem silent_defaultWord {word : String} (hword : word ∈ ["AUTO_INCREMENT", "COMMENT", "NOT"])
    (rest : List Char) : Silent (keyword word) " DEFAULT ".toList rest := by
  have hfixed : ∀ word ∈ ["AUTO_INCREMENT", "COMMENT", "NOT"],
      (IsKeyword word ∧ word.toList ≠ []) ∧ Silent (keyword word) " DEFAULT".toList [] := by decide
  obtain ⟨⟨hkey, hne⟩, hsilent⟩ := hfixed word hword
  exact silent_keyword_concat hkey hne hsilent (d := ' ') (by decide) rest

/-- No keyword that is searched for starts in a default. -/
theorem DefaultValue.silent_keyword (value : DefaultValue) {word : String}
    (hword : word ∈ searchedKeywords) {rest : List Char} (hrest : Spaced rest) :
    Silent (keyword word) value.text rest := by
  cases value with
  | literal text => exact text.silent_keyword hword rest
  | bare value =>
      have hkey := (isKeyword_of_mem_searched.1 word hword).1
      exact (silent_keyword_iff hkey hrest.boundary).mpr (value.quiet.keywords word hword)

/-- The other clauses do not start in a default. -/
theorem silent_default {word : String} (hword : word ∈ ["AUTO_INCREMENT", "COMMENT"])
    (value : Option DefaultValue) {rest : List Char} (hrest : Spaced rest) :
    Silent (keyword word) (defaultClause value) rest := by
  have hlists : ∀ word ∈ ["AUTO_INCREMENT", "COMMENT"],
      word ∈ ["AUTO_INCREMENT", "COMMENT", "NOT"] ∧ word ∈ searchedKeywords := by decide
  obtain ⟨hclause, hsearched⟩ := hlists word hword
  cases value with
  | none => trivial
  | some value =>
      exact silent_append.mpr
        ⟨silent_defaultWord hclause _, value.silent_keyword hsearched hrest⟩

/-- `NOT NULL` does not start in a default, if no `NULL` follows it. -/
theorem silent_phrase_default (value : Option DefaultValue) {rest : List Char}
    (hrest : Spaced rest) (hnext : keyword "NULL" (trimStart rest) = none) :
    Silent (phrase "NOT" "NULL") (defaultClause value) rest := by
  cases value with
  | none => trivial
  | some value =>
      have hword : Silent (phrase "NOT" "NULL") " DEFAULT ".toList (value.text ++ rest) :=
        (silent_defaultWord (by decide) _).mono fun cs h => phrase_eq_none h _
      refine silent_append.mpr ⟨hword, ?_⟩
      cases value with
      | literal text =>
          have hsearched : ("NOT", "NULL") ∈ searchedPhrases := by decide
          exact text.silent_phrase hsearched rest
      | bare value =>
          exact (silent_phrase_iff (by decide) (by decide) hrest.boundary hnext).mpr
            (value.quiet.phrases ("NOT", "NULL") (by decide))

/-! ## Searches over the clauses -/

/-- What may be left behind the attributes when the comment is taken out: the space that stood
before it. -/
def IsLeftover (tail : List Char) : Prop := tail = [] ∨ tail = [' ']

/-- It starts with a space, if with anything. -/
theorem IsLeftover.spaced {tail : List Char} (h : IsLeftover tail) : Spaced tail := by
  rcases h with rfl | rfl <;> intro c hc <;> cases hc
  rfl

/-- No `NULL` follows a default. -/
theorem IsLeftover.keyword_null {tail : List Char} (h : IsLeftover tail) (flag : Bool) :
    keyword "NULL" (trimStart (autoIncrementClause flag ++ tail)) = none := by
  rcases h with rfl | rfl <;> cases flag <;> rfl

/-- No keyword starts in what is left. -/
theorem IsLeftover.silent {tail : List Char} (h : IsLeftover tail) {word : String}
    (hword : word ∈ "NOT" :: searchedKeywords) : Silent (keyword word) tail [] := by
  have hspace : ∀ word ∈ "NOT" :: searchedKeywords, Silent (keyword word) [' '] [] := by decide
  rcases h with rfl | rfl
  · trivial
  · exact hspace word hword

/-- The first words of the clauses decide whether a clause is there. -/
theorem notNull_eq_none {cs : List Char} (h : phrase "NOT" "NULL" cs = none) :
    notNull cs = none := by
  rw [notNull]
  simp only [Option.bind_eq_bind, phrase_bind, h, Option.bind_none]

/-- No default without its keyword. -/
theorem columnDefault_eq_none {cs : List Char} (h : keyword "DEFAULT" cs = none) :
    columnDefault cs = none := by
  rw [columnDefault, h]
  rfl

/-- No counting up without its keyword. -/
theorem autoIncrement_eq_none {cs : List Char} (h : keyword "AUTO_INCREMENT" cs = none) :
    autoIncrement cs = none := by
  rw [autoIncrement, h]
  rfl

/-- No comment without its keyword. -/
theorem columnComment_eq_none {cs : List Char} (h : keyword "COMMENT" cs = none) :
    columnComment cs = none := by
  rw [columnComment, h]
  rfl

/-- `NOT NULL` is found exactly when it was written. -/
theorem occurs_notNull (column : ColumnDef) {tail : List Char} (htail : IsLeftover tail) :
    occurs notNull (column.attributes ++ tail) = column.notNull := by
  have hauto := (isClause_autoIncrement column.autoIncrement).spaced htail.spaced
  have hdefault := (isClause_default column.default).spaced hauto
  rw [ColumnDef.attributes, List.append_assoc, List.append_assoc]
  generalize hlater : defaultClause column.default ++
    (autoIncrementClause column.autoIncrement ++ tail) = later at hdefault
  cases column.notNull with
  | true =>
      have hfound : notNull ('N' :: ("OT NULL".toList ++ later)) = some () := by
        show (if isBoundary later.head? then some () else none) = some ()
        rw [if_pos hdefault.boundary]
      have hsearch := search_behind_space (silent_nil notNull _) rfl hfound
      show (search notNull none ([] ++ ' ' :: 'N' :: ("OT NULL".toList ++ later))).isSome = true
      rw [hsearch]
      rfl
  | false =>
      have hnull := htail.keyword_null column.autoIncrement
      have hsilent : Silent (phrase "NOT" "NULL") later [] := by
        rw [← hlater]
        refine silent_append.mpr ⟨?_, silent_append.mpr ⟨?_, ?_⟩⟩
        · rw [List.append_nil]
          exact silent_phrase_default column.default hauto hnull
        · rw [List.append_nil]
          exact (silent_autoIncrement (by decide) _ htail.spaced).mono
            fun cs h => phrase_eq_none h _
        · exact (htail.silent (by decide)).mono fun cs h => phrase_eq_none h _
      show (search notNull none later).isSome = false
      rw [search_eq_none (hsilent.mono fun cs => notNull_eq_none)]
      rfl

/-- `AUTO_INCREMENT` is found exactly when it was written. -/
theorem occurs_autoIncrement (column : ColumnDef) {tail : List Char} (htail : IsLeftover tail) :
    occurs autoIncrement (column.attributes ++ tail) = column.autoIncrement := by
  have hauto := (isClause_autoIncrement column.autoIncrement).spaced htail.spaced
  have hdefault := (isClause_default column.default).spaced hauto
  have hfront : Silent (keyword "AUTO_INCREMENT")
      (notNullClause column.notNull ++ defaultClause column.default)
      (autoIncrementClause column.autoIncrement ++ tail) :=
    silent_append.mpr ⟨silent_notNull (by decide) _ hdefault, silent_default (by decide) _ hauto⟩
  rw [ColumnDef.attributes, ← List.append_assoc, List.append_assoc, occurs]
  generalize notNullClause column.notNull ++ defaultClause column.default = front at hfront
  have hsilent := hfront.mono fun cs => autoIncrement_eq_none
  cases hflag : column.autoIncrement with
  | true =>
      have hfound : autoIncrement ('A' :: ("UTO_INCREMENT".toList ++ tail)) = some () := by
        show (if isBoundary tail.head? then some () else none) = some ()
        rw [if_pos htail.spaced.boundary]
      rw [hflag] at hsilent
      have hbefore : Silent autoIncrement front (' ' :: 'A' :: ("UTO_INCREMENT".toList ++ tail)) :=
        hsilent
      have hsearch := search_behind_space hbefore rfl hfound
      show (search autoIncrement none
        (front ++ ' ' :: 'A' :: ("UTO_INCREMENT".toList ++ tail))).isSome = true
      rw [hsearch]
      rfl
  | false =>
      rw [hflag] at hsilent
      have hall : Silent autoIncrement (front ++ tail) [] := by
        refine silent_append.mpr ⟨?_, ?_⟩
        · rw [List.append_nil]
          exact hsilent
        · exact (htail.silent (by decide)).mono fun cs => autoIncrement_eq_none
      show (search autoIncrement none (front ++ tail)).isSome = false
      rw [search_eq_none hall]
      rfl

/-- A default is read up to the next clause. -/
theorem DefaultValue.defaultText_append (value : DefaultValue) {rest : List Char}
    (hrest : Spaced rest) : defaultText (trimStart (value.text ++ rest)) = some value.text := by
  cases value with
  | literal text =>
      have hquote : rest.head? ≠ some '\'' := fun h => absurd (hrest _ h) (by decide)
      have hread := singleQuoted_append text.isText hquote
      have htext : (DefaultValue.literal text).text ++ rest
          = '\'' :: (text.chars ++ '\'' :: rest) := by
        simp [DefaultValue.text, Literal.text]
      rw [htext, trimStart_cons_of_not_blank (by decide)]
      simp [defaultText, symbol, hread, DefaultValue.text, Literal.text]
  | bare value =>
      have hrun : ∀ c ∈ value.chars, (!isBlank c && c ≠ ',') = true := by
        intro c hc
        have hcomma : c ≠ ',' := by
          rintro rfl
          exact absurd (value.isBare _ hc) (by decide)
        simp [value.not_blank c hc, hcomma]
      have hstop : ∀ c, rest.head? = some c → (!isBlank c && c ≠ ',') = false := by
        intro c hc
        rw [hrest c hc]
        decide
      obtain ⟨hread, -⟩ := takeWhile_append_stop hrun hstop
      show defaultText (trimStart (value.chars ++ rest)) = some value.chars
      obtain ⟨c, more, hchars⟩ := List.exists_cons_of_ne_nil value.ne_nil
      have hmem : c ∈ value.chars := by
        rw [hchars]
        exact List.mem_cons_self
      have hc : ∀ d, (isWordChar d = true ∨ d ∈ ['+', '-', '.']) → d ≠ '\'' ∧ d ≠ '"' ∧ d ≠ '(' := by
        intro d hd
        refine ⟨?_, ?_, ?_⟩ <;> rintro rfl <;> exact absurd hd (by decide)
      obtain ⟨hsingle, hdouble, hlist⟩ := hc c (value.isBare c hmem)
      have hblank := value.not_blank c hmem
      rw [hchars] at hread ⊢
      rw [List.cons_append, trimStart_cons_of_not_blank hblank]
      rw [List.cons_append] at hread
      simp only [defaultText, symbol, hsingle, hdouble, hlist, if_false, hread]
      rfl

/-- The default is found exactly when it was written. -/
theorem searchFirst_columnDefault (column : ColumnDef) {tail : List Char}
    (htail : IsLeftover tail) : searchFirst columnDefault (column.attributes ++ tail)
      = column.default.map DefaultValue.text := by
  have hauto := (isClause_autoIncrement column.autoIncrement).spaced htail.spaced
  have hdefault := (isClause_default column.default).spaced hauto
  have hsilent : Silent columnDefault (notNullClause column.notNull) (defaultClause column.default
      ++ (autoIncrementClause column.autoIncrement ++ tail)) :=
    (silent_notNull (by decide) _ hdefault).mono fun cs => columnDefault_eq_none
  rw [ColumnDef.attributes, List.append_assoc, List.append_assoc, searchFirst]
  cases hvalue : column.default with
  | some value =>
      have hfound : columnDefault ('D' :: ("EFAULT ".toList ++ (value.text ++
          (autoIncrementClause column.autoIncrement ++ tail)))) = some value.text :=
        value.defaultText_append hauto
      have hbefore : Silent columnDefault (notNullClause column.notNull)
          (' ' :: 'D' :: ("EFAULT ".toList ++ (value.text ++
            (autoIncrementClause column.autoIncrement ++ tail)))) := by
        rw [hvalue] at hsilent
        exact hsilent
      have hsearch := search_behind_space hbefore rfl hfound
      show (search columnDefault none (notNullClause column.notNull ++ ' ' :: 'D' ::
        ("EFAULT ".toList ++ (value.text ++
          (autoIncrementClause column.autoIncrement ++ tail))))).map Prod.snd = some value.text
      rw [hsearch]
      rfl
  | none =>
      rw [hvalue] at hsilent
      have hlater : Silent columnDefault (autoIncrementClause column.autoIncrement ++ tail) [] := by
        refine silent_append.mpr ⟨?_, ?_⟩
        · rw [List.append_nil]
          exact (silent_autoIncrement (by decide) _ htail.spaced).mono
            fun cs => columnDefault_eq_none
        · exact (htail.silent (by decide)).mono fun cs => columnDefault_eq_none
      have hall : Silent columnDefault (notNullClause column.notNull ++
          (autoIncrementClause column.autoIncrement ++ tail)) [] := by
        refine silent_append.mpr ⟨?_, hlater⟩
        rw [List.append_nil]
        exact hsilent
      show (search columnDefault none (notNullClause column.notNull ++
        (autoIncrementClause column.autoIncrement ++ tail))).map Prod.snd = none
      rw [search_eq_none hall]
      rfl

/-- The comment is found exactly when it was written, behind the attributes. -/
theorem search_columnComment (column : ColumnDef) : search columnComment none column.clauses
    = column.comment.map fun text => (column.attributes ++ [' '], text.chars, []) := by
  have hspaced : Spaced (commentClause column.comment) := by
    have hempty : Spaced [] := fun c hc => nomatch hc
    have hcomment := (isClause_comment column.comment).spaced hempty
    rwa [List.append_nil] at hcomment
  have hauto := (isClause_autoIncrement column.autoIncrement).spaced hspaced
  have hdefault := (isClause_default column.default).spaced hauto
  have hattributes : Silent (keyword "COMMENT") column.attributes
      (commentClause column.comment) := by
    refine silent_append.mpr ⟨?_, silent_append.mpr ⟨?_, ?_⟩⟩
    · rw [List.append_assoc]
      exact silent_notNull (by decide) _ hdefault
    · exact silent_default (by decide) _ hauto
    · exact silent_autoIncrement (by decide) _ hspaced
  have hsilent := hattributes.mono fun cs => columnComment_eq_none
  rw [ColumnDef.clauses]
  cases hcomment : column.comment with
  | none =>
      rw [hcomment] at hsilent
      show search columnComment none (column.attributes ++ []) = none
      rw [List.append_nil]
      exact search_eq_none hsilent none
  | some text =>
      have hfound : columnComment ('C' :: ("OMMENT ".toList ++ text.text))
          = some (text.chars, []) := by
        show singleQuoted (text.chars ++ ['\'']) = some (text.chars, [])
        exact singleQuoted_append text.isText (by simp)
      have hbefore : Silent columnComment column.attributes
          (' ' :: 'C' :: ("OMMENT ".toList ++ text.text)) := by
        rw [hcomment] at hsilent
        exact hsilent
      exact search_behind_space hbefore rfl hfound

/-- **Reading undoes writing for columns.**  A written column is read as the column that it
stands for. -/
theorem ColumnDef.parseColumn_text (column : ColumnDef) :
    parseColumn column.text = some column.column := by
  obtain ⟨leader, hleader, hreserved⟩ := column.leader_text
  have hattributes : ∀ tail, IsLeftover tail →
      (!occurs Sql.notNull (column.attributes ++ tail)) = !column.notNull ∧
      (searchFirst columnDefault (column.attributes ++ tail)).map String.ofList
        = column.default.map (fun value => String.ofList value.text) ∧
      occurs Sql.autoIncrement (column.attributes ++ tail) = column.autoIncrement := by
    intro tail htail
    rw [occurs_notNull column htail, searchFirst_columnDefault column htail,
      occurs_autoIncrement column htail, Option.map_map]
    exact ⟨rfl, rfl, rfl⟩
  unfold parseColumn ColumnDef.column
  simp only [Option.bind_eq_bind, hleader, Option.bind_some, hreserved, column.columnHead_text,
    search_columnComment column, column.type.join_words]
  rw [if_neg Bool.false_ne_true]
  cases hcomment : column.comment with
  | none =>
      obtain ⟨hnull, hdefault, hauto⟩ := hattributes [] (.inl rfl)
      have hclauses : column.clauses = column.attributes ++ [] := by
        rw [ColumnDef.clauses, hcomment]
        rfl
      simp only [Option.map_none, hclauses, hnull, hdefault, hauto]
  | some text =>
      obtain ⟨hnull, hdefault, hauto⟩ := hattributes [' '] (.inr rfl)
      simp only [Option.map_some, List.append_nil, hnull, hdefault, hauto]

end CodeIndex.Sql
