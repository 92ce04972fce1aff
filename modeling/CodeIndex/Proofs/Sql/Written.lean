import CodeIndex.Proofs.Sql.Canonical
import CodeIndex.Proofs.Sql.Scan

/-!
# Written definitions hold no comment and no second header

Whether a text holds a comment mark or a header depends on what follows it, so both are carried
from the end of a statement to its front: `Ready` is the property carried, and `Calm` is what a
text has to be like for a run without blanks to stand before it.

* `ColumnDef.ready`, `KeyDef.ready` : the parts of a body keep what follows them ready.
* `TableDef.ready_options` : so do the options of a table.
-/

namespace CodeIndex.Sql

open Text

/-- A text without comment marks in which no header starts. -/
structure Ready (cs : List Char) : Prop where
  free : CommentFree cs
  headless : Silent (phrase "CREATE" "TABLE") cs []

/-- A text that ends the word in front of it and continues neither a header nor a comment
mark. -/
structure Calm (rest : List Char) : Prop where
  boundary : isBoundary rest.head? = true
  noTable : keyword "TABLE" (trimStart rest) = none
  noMark : ∀ c, rest.head? = some c → c ≠ '-' ∧ c ≠ '*'

/-- A character that the first letter of a keyword does not fold to starts no keyword. -/
theorem keyword_table_cons {c : Char} (hc : foldsTo 'T' c = false) (rest : List Char) :
    keyword "TABLE" (c :: rest) = none := by
  simp [keyword, afterLetters, hc]

namespace Calm

/-- Nothing is calm. -/
theorem nil : Calm [] where
  boundary := rfl
  noTable := rfl
  noMark := by simp

/-- A character outside words that is no blank is calm, unless it is in a comment mark. -/
theorem cons {c : Char} (hword : isWordChar c = false) (hblank : isBlank c = false)
    (hmark : c ≠ '-' ∧ c ≠ '*') (rest : List Char) : Calm (c :: rest) where
  boundary := by simp [isBoundary, hword]
  noTable := by
    rw [trimStart_cons_of_not_blank hblank]
    exact keyword_table_cons (foldsTo_of_not_isWordChar (.inl rfl) hword) rest
  noMark := by
    rintro d hd
    cases hd
    exact hmark

/-- Blanks before a calm character are calm. -/
theorem gap {gap : List Char} (hgap : ∀ c ∈ gap, isBlank c = true) {c : Char}
    (hword : isWordChar c = false) (hblank : isBlank c = false) (hmark : c ≠ '-' ∧ c ≠ '*')
    (rest : List Char) : Calm (gap ++ c :: rest) := by
  cases gap with
  | nil => exact cons hword hblank hmark rest
  | cons g gap =>
      have hg := hgap g List.mem_cons_self
      refine ⟨?_, ?_, ?_⟩
      · simp [isBoundary, isWordChar_of_isBlank hg]
      · rw [trimStart_append_of_eq_nil (trimStart_of_blank hgap)]
        exact (cons hword hblank hmark rest).noTable
      · rintro d hd
        cases hd
        constructor <;> rintro rfl <;> exact absurd hg (by decide)

/-- A space before a clause is calm, if the clause does not start like `TABLE`. -/
theorem space {c : Char} (hblank : isBlank c = false) (hc : foldsTo 'T' c = false)
    (rest : List Char) : Calm (' ' :: c :: rest) where
  boundary := rfl
  noTable := by
    rw [show trimStart (' ' :: c :: rest) = trimStart (c :: rest) from rfl,
      trimStart_cons_of_not_blank hblank]
    exact keyword_table_cons hc rest
  noMark := by
    rintro d hd
    cases hd
    decide

end Calm

namespace Ready

/-- Nothing is ready. -/
theorem nil : Ready [] := ⟨commentFree_nil, trivial⟩

/-- A text that opens neither a header nor a comment keeps what follows ready. -/
theorem safe {w : List Char} (hw : ∀ c ∈ w, foldsTo 'C' c = false ∧ c ≠ '-' ∧ c ≠ '/')
    {rest : List Char} (h : Ready rest) : Ready (w ++ rest) := by
  induction w with
  | nil => exact h
  | cons c w ih =>
      obtain ⟨hletter, hdash, hslash⟩ := hw c List.mem_cons_self
      have hrest := ih fun d hd => hw d (List.mem_cons_of_mem _ hd)
      refine ⟨?_, ?_, hrest.headless⟩
      · refine List.isChain_cons.mpr ⟨?_, hrest.free⟩
        intro d _
        simp [opensComment, hdash, hslash]
      · simp [phrase, keyword, afterLetters, hletter]

/-- The same for one character. -/
theorem cons {c : Char} (hc : foldsTo 'C' c = false ∧ c ≠ '-' ∧ c ≠ '/') {rest : List Char}
    (h : Ready rest) : Ready (c :: rest) :=
  safe (w := [c]) (by simpa using hc) h

/-- A run without blanks and comment marks keeps a calm text ready. -/
theorem run {w : List Char} (hblank : ∀ c ∈ w, isBlank c = false) (hfree : CommentFree w)
    {rest : List Char} (hcalm : Calm rest) (h : Ready rest) : Ready (w ++ rest) where
  free := by
    refine List.isChain_append.mpr ⟨hfree, h.free, ?_⟩
    intro x _ y hy
    obtain ⟨hdash, hstar⟩ := hcalm.noMark y hy
    simp [opensComment, hdash, hstar]
  headless := by
    refine silent_append.mpr ⟨?_, h.headless⟩
    rw [List.append_nil,
      silent_phrase_iff (by decide) (by decide) hcalm.boundary hcalm.noTable]
    exact silent_phrase_of_no_blank hblank

/-- The text of a literal keeps its closing quote ready. -/
theorem literal (text : Literal) {rest : List Char} (h : Ready ('\'' :: rest)) :
    Ready (text.chars ++ '\'' :: rest) where
  free := by
    refine List.isChain_append.mpr ⟨text.free, h.free, ?_⟩
    intro x _ y hy
    cases hy
    simp [opensComment]
  headless := by
    have hquiet := text.quiet.phrases ("CREATE", "TABLE") (by decide)
    refine silent_append.mpr ⟨?_, h.headless⟩
    rw [List.append_nil, silent_phrase_iff (by decide) (by decide) rfl rfl]
    exact hquiet

end Ready

/-! ## Words, literals and clauses -/

/-- A text without the characters that open a comment is free of comments. -/
theorem commentFree_of_ne {w : List Char} (h : ∀ c ∈ w, c ≠ '-' ∧ c ≠ '/') : CommentFree w := by
  induction w with
  | nil => exact commentFree_nil
  | cons c w ih =>
      obtain ⟨hdash, hslash⟩ := h c List.mem_cons_self
      refine List.isChain_cons.mpr ⟨?_, ih fun d hd => h d (List.mem_cons_of_mem _ hd)⟩
      intro d _
      simp [opensComment, hdash, hslash]

/-- A word is free of comments. -/
theorem Word.free (word : Word) : CommentFree word.chars := by
  apply commentFree_of_ne
  intro c hc
  have hword := word.isWord c hc
  exact ⟨ne_of_isWordChar hword (by decide), ne_of_isWordChar hword (by decide)⟩

/-- A word keeps a calm text ready. -/
theorem Word.ready (word : Word) {rest : List Char} (hcalm : Calm rest) (h : Ready rest) :
    Ready (word.chars ++ rest) :=
  .run word.not_blank word.free hcalm h

/-- A written literal keeps any text ready. -/
theorem Literal.ready (text : Literal) {rest : List Char} (h : Ready rest) :
    Ready (text.text ++ rest) := by
  have hclose : Ready ('\'' :: rest) := .cons (by decide) h
  simpa [Literal.text] using Ready.cons (by decide) (.literal text hclose)

/-- A written default keeps a calm text ready. -/
theorem DefaultValue.ready (value : DefaultValue) {rest : List Char} (hcalm : Calm rest)
    (h : Ready rest) : Ready (value.text ++ rest) := by
  cases value with
  | bare value => exact .run value.not_blank value.free hcalm h
  | literal text => exact text.ready h

/-- The letters that a clause of a column or an option of a table starts with. -/
def clauseLetters : List Char := ['N', 'D', 'A', 'C']

/-- A text that is empty or starts with a space and one of these letters. -/
def IsClause (cs : List Char) : Prop :=
  cs = [] ∨ ∃ c rest, cs = ' ' :: c :: rest ∧ c ∈ clauseLetters

/-- Clauses one after the other are like a clause. -/
theorem IsClause.append {cs rest : List Char} (h : IsClause cs) (hrest : IsClause rest) :
    IsClause (cs ++ rest) := by
  rcases h with rfl | ⟨c, more, rfl, hc⟩
  · exact hrest
  · exact .inr ⟨c, more ++ rest, rfl, hc⟩

/-- A clause keeps a calm text calm. -/
theorem IsClause.calm {cs rest : List Char} (h : IsClause cs) (hcalm : Calm rest) :
    Calm (cs ++ rest) := by
  have hletters : ∀ c ∈ clauseLetters, isBlank c = false ∧ foldsTo 'T' c = false := by decide
  rcases h with rfl | ⟨c, more, rfl, hc⟩
  · exact hcalm
  · exact .space (hletters c hc).1 (hletters c hc).2 _

/-- The clauses of a column and the options of a table are clauses. -/
theorem isClause_notNull (flag : Bool) : IsClause (notNullClause flag) := by
  cases flag with
  | false => exact .inl rfl
  | true => exact .inr ⟨'N', "OT NULL".toList, rfl, by decide⟩

/-- The default is a clause. -/
theorem isClause_default (value : Option DefaultValue) : IsClause (defaultClause value) := by
  cases value with
  | none => exact .inl rfl
  | some value => exact .inr ⟨'D', "EFAULT ".toList ++ value.text, rfl, by decide⟩

/-- The word for counting up is a clause. -/
theorem isClause_autoIncrement (flag : Bool) : IsClause (autoIncrementClause flag) := by
  cases flag with
  | false => exact .inl rfl
  | true => exact .inr ⟨'A', "UTO_INCREMENT".toList, rfl, by decide⟩

/-- The comment of a column is a clause. -/
theorem isClause_comment (text : Option Literal) : IsClause (commentClause text) := by
  cases text with
  | none => exact .inl rfl
  | some text => exact .inr ⟨'C', "OMMENT ".toList ++ text.text, rfl, by decide⟩

/-! ## Columns -/

/-- What follows `NOT NULL` is ready with it in front. -/
theorem ready_notNull (flag : Bool) {rest : List Char} (h : Ready rest) :
    Ready (notNullClause flag ++ rest) := by
  cases flag with
  | false => exact h
  | true => exact .safe (by decide) h

/-- What follows a default is ready with it in front. -/
theorem ready_default (value : Option DefaultValue) {rest : List Char} (hcalm : Calm rest)
    (h : Ready rest) : Ready (defaultClause value ++ rest) := by
  cases value with
  | none => exact h
  | some value =>
      show Ready (" DEFAULT ".toList ++ value.text ++ rest)
      rw [List.append_assoc]
      exact .safe (by decide) (value.ready hcalm h)

/-- What follows the word for counting up is ready with it in front. -/
theorem ready_autoIncrement (flag : Bool) {rest : List Char} (hcalm : Calm rest)
    (h : Ready rest) : Ready (autoIncrementClause flag ++ rest) := by
  cases flag with
  | false => exact h
  | true =>
      have hword : Ready ("AUTO_INCREMENT".toList ++ rest) :=
        .run (by decide) (commentFree_of_ne (by decide)) hcalm h
      show Ready (' ' :: ("AUTO_INCREMENT".toList ++ rest))
      exact .cons (by decide) hword

/-- What follows a comment is ready with it in front. -/
theorem ready_comment (text : Option Literal) {rest : List Char} (h : Ready rest) :
    Ready (commentClause text ++ rest) := by
  cases text with
  | none => exact h
  | some text =>
      have hliteral : Ready (' ' :: (text.text ++ rest)) := .cons (by decide) (text.ready h)
      have hword : Ready ("COMMENT".toList ++ ' ' :: (text.text ++ rest)) :=
        .run (by decide) (commentFree_of_ne (by decide)) (.space (by decide) (by decide) _)
          hliteral
      show Ready (' ' :: ("COMMENT ".toList ++ text.text ++ rest))
      rw [show "COMMENT ".toList = "COMMENT".toList ++ [' '] from rfl, List.append_assoc,
        List.append_assoc]
      exact .cons (by decide) hword

/-- The clauses of a column keep a calm text ready. -/
theorem ColumnDef.ready_clauses (column : ColumnDef) {rest : List Char} (hcalm : Calm rest)
    (h : Ready rest) : Ready (column.attributes ++ (commentClause column.comment ++ rest)) := by
  have hcomment := ready_comment column.comment h
  have hcalmComment := (isClause_comment column.comment).calm hcalm
  have hauto := ready_autoIncrement column.autoIncrement hcalmComment hcomment
  have hcalmAuto := (isClause_autoIncrement column.autoIncrement).calm hcalmComment
  rw [ColumnDef.attributes, List.append_assoc, List.append_assoc]
  exact ready_notNull _ (ready_default _ hcalmAuto hauto)

/-- The clauses of a column keep a calm text calm. -/
theorem ColumnDef.calm_clauses (column : ColumnDef) {rest : List Char} (hcalm : Calm rest) :
    Calm (column.attributes ++ (commentClause column.comment ++ rest)) := by
  rw [ColumnDef.attributes, List.append_assoc, List.append_assoc]
  apply (isClause_notNull _).calm
  apply (isClause_default _).calm
  apply (isClause_autoIncrement _).calm
  exact (isClause_comment _).calm hcalm

/-- The modifiers of a type are clauses that keep a text ready. -/
theorem TypeModifier.texts_written (modifiers : List TypeModifier) {rest : List Char}
    (hcalm : Calm rest) (h : Ready rest) :
    Calm (texts modifiers ++ rest) ∧ Ready (texts modifiers ++ rest) := by
  induction modifiers with
  | nil => exact ⟨hcalm, h⟩
  | cons modifier modifiers ih =>
      have htext : texts (modifier :: modifiers) ++ rest
          = (' ' :: modifier.text) ++ (texts modifiers ++ rest) := by
        simp [texts]
      rw [htext]
      cases modifier with
      | unsigned => exact ⟨.space (by decide) (by decide) _, .safe (by decide) ih.2⟩
      | signed => exact ⟨.space (by decide) (by decide) _, .safe (by decide) ih.2⟩
      | zerofill => exact ⟨.space (by decide) (by decide) _, .safe (by decide) ih.2⟩

/-- A digit has no comment mark and is no blank. -/
theorem ne_of_isDecimal {c d : Char} (hc : isDecimal c = true) (hd : isDecimal d = false) :
    c ≠ d := by
  rintro rfl
  rw [hc] at hd
  cases hd

/-- Digits and commas in parentheses, calm and ready before anything that is ready. -/
theorem digits_written {digits : List Char} (hdigits : ∀ c ∈ digits, isDecimal c = true ∨ c = ',')
    {rest : List Char} (h : Ready rest) :
    Calm ('(' :: (digits ++ ')' :: rest)) ∧ Ready ('(' :: (digits ++ ')' :: rest)) := by
  have hclose : Ready (')' :: rest) := .cons (by decide) h
  have hcalm : Calm (')' :: rest) := .cons (by decide) (by decide) (by decide) rest
  have hblank : ∀ c ∈ digits, isBlank c = false := by
    intro c hc
    rcases hdigits c hc with hdec | rfl
    · exact isBlank_of_isDecimal hdec
    · decide
  have hfree : CommentFree digits := by
    apply commentFree_of_ne
    intro c hc
    rcases hdigits c hc with hdec | rfl
    · exact ⟨ne_of_isDecimal hdec (by decide), ne_of_isDecimal hdec (by decide)⟩
    · decide
  exact ⟨.cons (by decide) (by decide) (by decide) _,
    .cons (by decide) (.run hblank hfree hcalm hclose)⟩

/-- A type keeps a calm text ready. -/
theorem ColumnType.ready (type : ColumnType) {rest : List Char} (hcalm : Calm rest)
    (h : Ready rest) : Ready (type.text ++ rest) := by
  obtain ⟨hcalmMod, hmod⟩ := TypeModifier.texts_written type.modifiers hcalm h
  rw [ColumnType.text, List.append_assoc, List.append_assoc]
  cases hparams : type.params with
  | none => exact type.word.ready hcalmMod hmod
  | some params =>
      obtain ⟨hcalmParams, hready⟩ := digits_written params.isList hmod
      have htext : TypeParams.text (some params) ++ (TypeModifier.texts type.modifiers ++ rest)
          = '(' :: (params.chars ++ ')' :: (TypeModifier.texts type.modifiers ++ rest)) := by
        simp [TypeParams.text]
      rw [htext]
      exact type.word.ready hcalmParams hready

/-- A written column keeps a calm text ready. -/
theorem ColumnDef.ready (column : ColumnDef) {rest : List Char} (hcalm : Calm rest)
    (h : Ready rest) : Ready (column.text ++ rest) := by
  have htype := column.type.ready (column.calm_clauses hcalm) (column.ready_clauses hcalm h)
  have hspace := Ready.cons (c := ' ') (by decide) htype
  have hclose := Ready.cons (c := '\x60') (by decide) hspace
  have hname := column.name.ready (.cons (by decide) (by decide) (by decide) _) hclose
  simpa [ColumnDef.text] using Ready.cons (c := '\x60') (by decide) hname

/-! ## Keys and options -/

/-- The quote of an identifier keeps a text ready. -/
theorem Quoting.ready_mark (quoting : Quoting) {rest : List Char} (h : Ready rest) :
    Ready (quoting.mark ++ rest) := by
  cases quoting with
  | bare => exact h
  | backtick => exact .cons (by decide) h
  | double => exact .cons (by decide) h

/-- The quote of an identifier keeps a calm text calm. -/
theorem Quoting.calm_mark (quoting : Quoting) {rest : List Char} (h : Calm rest) :
    Calm (quoting.mark ++ rest) := by
  cases quoting with
  | bare => exact h
  | backtick => exact .cons (by decide) (by decide) (by decide) rest
  | double => exact .cons (by decide) (by decide) (by decide) rest

/-- The order of a column in a key before a calm text. -/
theorem SortOrder.written (order : Option SortOrder) {rest : List Char} (hcalm : Calm rest)
    (h : Ready rest) : Calm (text order ++ rest) ∧ Ready (text order ++ rest) := by
  have hword : ∀ word : List Char, (∀ c ∈ word, isBlank c = false ∧ c ≠ '-' ∧ c ≠ '/') →
      Ready (' ' :: (word ++ rest)) := by
    intro word hw
    have hfree : CommentFree word := commentFree_of_ne fun c hc => (hw c hc).2
    exact .cons (by decide) (.run (fun c hc => (hw c hc).1) hfree hcalm h)
  cases order with
  | none => exact ⟨hcalm, h⟩
  | some order =>
      cases order with
      | asc => exact ⟨.space (by decide) (by decide) _, hword "ASC".toList (by decide)⟩
      | desc => exact ⟨.space (by decide) (by decide) _, hword "DESC".toList (by decide)⟩

/-- The size of a column in a key before a calm text. -/
theorem KeySize.written (size : Option KeySize) {rest : List Char} (hcalm : Calm rest)
    (h : Ready rest) : Calm (text size ++ rest) ∧ Ready (text size ++ rest) := by
  cases size with
  | none => exact ⟨hcalm, h⟩
  | some size =>
      have hdigits := digits_written (fun c hc => .inl (size.isDigits c hc)) h
      simpa [KeySize.text] using hdigits

/-- A written column of a key keeps a calm text ready. -/
theorem KeyPart.ready (part : KeyPart) {rest : List Char} (hcalm : Calm rest)
    (h : Ready rest) : Ready (part.text ++ rest) := by
  obtain ⟨hcalmOrder, horder⟩ := SortOrder.written part.order hcalm h
  obtain ⟨hcalmSize, hsize⟩ := KeySize.written part.size hcalmOrder horder
  have hclose := part.quoting.ready_mark hsize
  have hname := part.column.ready (part.quoting.calm_mark hcalmSize) hclose
  simpa [KeyPart.text] using part.quoting.ready_mark hname

/-- Blanks keep a text ready. -/
theorem Ready.gap {gap : List Char} (hgap : ∀ c ∈ gap, isBlank c = true) {rest : List Char}
    (h : Ready rest) : Ready (gap ++ rest) := by
  refine .safe ?_ h
  intro c hc
  have hblank := hgap c hc
  refine ⟨foldsTo_of_not_isWordChar (.inl rfl) (isWordChar_of_isBlank hblank), ?_, ?_⟩
  · rintro rfl
    exact absurd hblank (by decide)
  · rintro rfl
    exact absurd hblank (by decide)

/-- Parts that keep a calm text ready do so when they are joined with commas. -/
theorem ready_join {gap : List Char} (hgap : ∀ c ∈ gap, isBlank c = true)
    {parts : List (List Char)}
    (hparts : ∀ part ∈ parts, ∀ rest, Calm rest → Ready rest → Ready (part ++ rest))
    {rest : List Char} (hcalm : Calm rest) (h : Ready rest) :
    Ready (join (',' :: gap) parts ++ rest) := by
  induction parts with
  | nil => exact h
  | cons part parts ih =>
      have hpart := hparts part List.mem_cons_self
      have hrest := ih fun p hp => hparts p (List.mem_cons_of_mem _ hp)
      cases parts with
      | nil => exact hpart rest hcalm h
      | cons next parts =>
          have htext : join (',' :: gap) (part :: next :: parts) ++ rest
              = part ++ ',' :: (gap ++ (join (',' :: gap) (next :: parts) ++ rest)) := by
            simp [join]
          have hcomma := Ready.cons (c := ',') (by decide) (Ready.gap hgap hrest)
          rw [htext]
          exact hpart _ (.cons (by decide) (by decide) (by decide) _) hcomma

/-- The head of a key keeps a text ready. -/
theorem KeyHead.ready (head : KeyHead) {rest : List Char} (h : Ready rest) :
    Ready (head.text ++ rest) := by
  have hname : ∀ name : Word, Ready (keyNameText name ++ rest) := by
    intro name
    have hspace := Ready.cons (c := ' ') (by decide) h
    have hclose := Ready.cons (c := '\x60') (by decide) hspace
    have hword := name.ready (.cons (by decide) (by decide) (by decide) _) hclose
    simpa [keyNameText] using Ready.cons (c := '\x60') (by decide) hword
  cases head with
  | primary => exact .safe (by decide) h
  | unique name =>
      show Ready ("UNIQUE KEY ".toList ++ keyNameText name ++ rest)
      rw [List.append_assoc]
      exact .safe (by decide) (hname name)
  | fulltext name =>
      show Ready ("FULLTEXT KEY ".toList ++ keyNameText name ++ rest)
      rw [List.append_assoc]
      exact .safe (by decide) (hname name)
  | index name =>
      show Ready ("KEY ".toList ++ keyNameText name ++ rest)
      rw [List.append_assoc]
      exact .safe (by decide) (hname name)

/-- A written key keeps any text ready. -/
theorem KeyDef.ready (key : KeyDef) {rest : List Char} (h : Ready rest) :
    Ready (key.text ++ rest) := by
  have hclose := Ready.cons (c := ')') (by decide) h
  have hparts : ∀ part ∈ key.parts.map KeyPart.text, ∀ rest, Calm rest → Ready rest →
      Ready (part ++ rest) := by
    intro part hpart rest hcalm hrest
    obtain ⟨p, -, rfl⟩ := List.mem_map.mp hpart
    exact p.ready hcalm hrest
  have hspace : ∀ c ∈ [' '], isBlank c = true := by decide
  have hlist : Ready (key.list ++ ')' :: rest) :=
    ready_join hspace hparts (.cons (by decide) (by decide) (by decide) _) hclose
  have hopen := Ready.cons (c := '(') (by decide) hlist
  simpa [KeyDef.text] using key.head.ready hopen

/-- The options of a table are clauses. -/
theorem isClause_charset (charset : Option OptionWord) : IsClause (charsetText charset) := by
  cases charset with
  | none => exact .inl rfl
  | some charset =>
      exact .inr ⟨'D', "EFAULT CHARSET=".toList ++ charset.chars, rfl, by decide⟩

/-- The comment of a table is a clause. -/
theorem isClause_tableComment (text : Option Literal) : IsClause (tableCommentText text) := by
  cases text with
  | none => exact .inl rfl
  | some text => exact .inr ⟨'C', "OMMENT=".toList ++ text.text, rfl, by decide⟩

/-- What follows an engine is ready with it in front. -/
theorem ready_engine (engine : Option OptionWord) {rest : List Char} (hcalm : Calm rest)
    (h : Ready rest) : Ready (engineText engine ++ rest) := by
  cases engine with
  | none => exact h
  | some engine =>
      show Ready (" ENGINE=".toList ++ engine.chars ++ rest)
      rw [List.append_assoc]
      exact .safe (by decide) (engine.toWord.ready hcalm h)

/-- What follows a character set is ready with it in front. -/
theorem ready_charset (charset : Option OptionWord) {rest : List Char} (hcalm : Calm rest)
    (h : Ready rest) : Ready (charsetText charset ++ rest) := by
  cases charset with
  | none => exact h
  | some charset =>
      have hword := charset.toWord.ready hcalm h
      have hequals := Ready.cons (c := '=') (by decide) hword
      have hcharset : Ready ("CHARSET".toList ++ '=' :: (charset.chars ++ rest)) :=
        .run (by decide) (commentFree_of_ne (by decide))
          (.cons (by decide) (by decide) (by decide) _) hequals
      show Ready (" DEFAULT CHARSET=".toList ++ charset.chars ++ rest)
      rw [show " DEFAULT CHARSET=".toList = " DEFAULT ".toList ++ ("CHARSET".toList ++ ['='])
        from rfl]
      simp only [List.append_assoc, List.singleton_append]
      exact .safe (by decide) hcharset

/-- What follows the comment of a table is ready with it in front. -/
theorem ready_tableComment (text : Option Literal) {rest : List Char} (h : Ready rest) :
    Ready (tableCommentText text ++ rest) := by
  cases text with
  | none => exact h
  | some text =>
      have hequals := Ready.cons (c := '=') (by decide) (text.ready h)
      have hword : Ready ("COMMENT".toList ++ '=' :: (text.text ++ rest)) :=
        .run (by decide) (commentFree_of_ne (by decide))
          (.cons (by decide) (by decide) (by decide) _) hequals
      show Ready (' ' :: ("COMMENT=".toList ++ text.text ++ rest))
      rw [show "COMMENT=".toList = "COMMENT".toList ++ ['='] from rfl]
      simp only [List.append_assoc, List.singleton_append]
      exact .cons (by decide) hword

/-- The options of a table keep a calm text ready. -/
theorem TableDef.ready_options (t : TableDef) {rest : List Char} (hcalm : Calm rest)
    (h : Ready rest) : Ready (t.options ++ rest) := by
  have hcomment := ready_tableComment t.comment h
  have hcalmComment := (isClause_tableComment t.comment).calm hcalm
  have hcharset := ready_charset t.charset hcalmComment hcomment
  have hcalmCharset := (isClause_charset t.charset).calm hcalmComment
  rw [TableDef.options, List.append_assoc, List.append_assoc]
  exact ready_engine t.engine hcalmCharset hcharset

end CodeIndex.Sql
