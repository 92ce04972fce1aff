import CodeIndex.Proofs.Sql.ColumnRead

/-!
# Reading back the options of a table

The storage engine, the character set and the comment are each searched for in all options, so
each search has to pass over the options in front of the one it looks for, and over all of them
when that one was not written.

* `searchFirst_engineOption`, `searchFirst_charsetOption`, `searchFirst_commentOption` : each
  option is found exactly when it was written.
-/

namespace CodeIndex.Sql

open Text

/-- A word of an option is read up to a boundary. -/
theorem OptionWord.optionWord_append (option : OptionWord) {rest : List Char}
    (hrest : isBoundary rest.head? = true) :
    optionWord (option.chars ++ rest) = some option.chars := by
  have hstart : trimStart (option.chars ++ rest) = option.chars ++ rest := by
    obtain ⟨c, more, hchars⟩ := List.exists_cons_of_ne_nil option.ne_nil
    have hc := option.not_blank c (by rw [hchars]; exact List.mem_cons_self)
    rw [hchars]
    exact trimStart_cons_of_not_blank hc _
  rw [optionWord, hstart, option.read hrest]
  rfl

/-- No keyword that is searched for starts in a word of an option. -/
theorem OptionWord.silent_keyword (option : OptionWord) {word : String}
    (hword : word ∈ searchedKeywords) {rest : List Char} (hrest : Spaced rest) :
    Silent (keyword word) option.chars rest :=
  (silent_keyword_iff (isKeyword_of_mem_searched.1 word hword).1 hrest.boundary).mpr
    (option.quiet.keywords word hword)

/-- `CHARACTER SET` does not start in a word of an option. -/
theorem OptionWord.silent_phrase (option : OptionWord) {rest : List Char} (hrest : IsClause rest) :
    Silent (phrase "CHARACTER" "SET") option.chars rest := by
  have hnext : isBoundary rest.head? = true ∧ keyword "SET" (trimStart rest) = none := by
    rcases hrest with rfl | ⟨c, more, rfl, hc⟩
    · exact ⟨rfl, rfl⟩
    · simp only [clauseLetters, List.mem_cons, List.not_mem_nil, or_false] at hc
      rcases hc with rfl | rfl | rfl | rfl <;> exact ⟨rfl, rfl⟩
  exact (silent_phrase_iff (by decide) (by decide) hnext.1 hnext.2).mpr
    (silent_phrase_of_no_blank option.not_blank)

/-! ## Silence of the options -/

/-- A keyword starts in an option only if it starts in its name or in its value. -/
theorem silent_option {word : String} (hword : IsKeyword word ∧ word.toList ≠ [])
    {name value rest : List Char} (hname : Silent (keyword word) name [])
    (hvalue : Silent (keyword word) value rest) :
    Silent (keyword word) (name ++ ['='] ++ value) rest :=
  silent_append.mpr
    ⟨silent_keyword_concat hword.1 hword.2 hname (by decide) (value ++ rest), hvalue⟩

/-- `CHARACTER SET` starts in an option only if it starts in its value, or its first word in its
name. -/
theorem silent_phrase_option {name value rest : List Char}
    (hname : Silent (keyword "CHARACTER") name [])
    (hvalue : Silent (phrase "CHARACTER" "SET") value rest) :
    Silent (phrase "CHARACTER" "SET") (name ++ ['='] ++ value) rest := by
  have hfront := silent_keyword_concat (by decide) (by decide) hname (d := '=') (by decide)
    (value ++ rest)
  exact silent_append.mpr ⟨hfront.mono fun cs h => phrase_eq_none h _, hvalue⟩

/-- The other options do not start in that of the engine. -/
theorem silent_engine {word : String} (hword : word ∈ ["CHARSET", "COMMENT"])
    (engine : Option OptionWord) {rest : List Char} (hrest : Spaced rest) :
    Silent (keyword word) (engineText engine) rest := by
  have hfixed : ∀ word ∈ ["CHARSET", "COMMENT"],
      word ∈ searchedKeywords ∧ Silent (keyword word) " ENGINE".toList [] := by decide
  obtain ⟨hsearched, hname⟩ := hfixed word hword
  cases engine with
  | none => trivial
  | some engine =>
      exact silent_option (isKeyword_of_mem_searched.1 word hsearched) hname
        (engine.silent_keyword hsearched hrest)

/-- The other options do not start in that of the character set. -/
theorem silent_charset {word : String} (hword : word ∈ ["ENGINE", "COMMENT"])
    (charset : Option OptionWord) {rest : List Char} (hrest : Spaced rest) :
    Silent (keyword word) (charsetText charset) rest := by
  have hfixed : ∀ word ∈ ["ENGINE", "COMMENT"],
      word ∈ searchedKeywords ∧ Silent (keyword word) " DEFAULT CHARSET".toList [] := by decide
  obtain ⟨hsearched, hname⟩ := hfixed word hword
  cases charset with
  | none => trivial
  | some charset =>
      exact silent_option (isKeyword_of_mem_searched.1 word hsearched) hname
        (charset.silent_keyword hsearched hrest)

/-- The other options do not start in the comment. -/
theorem silent_tableComment {word : String} (hword : word ∈ ["ENGINE", "CHARSET"])
    (comment : Option Literal) (rest : List Char) :
    Silent (keyword word) (tableCommentText comment) rest := by
  have hfixed : ∀ word ∈ ["ENGINE", "CHARSET"],
      word ∈ searchedKeywords ∧ Silent (keyword word) " COMMENT".toList [] := by decide
  obtain ⟨hsearched, hname⟩ := hfixed word hword
  cases comment with
  | none => trivial
  | some text =>
      exact silent_option (isKeyword_of_mem_searched.1 word hsearched) hname
        (text.silent_keyword hsearched rest)

/-- The first words of the options decide whether an option is there. -/
theorem engineOption_eq_none {cs : List Char} (h : keyword "ENGINE" cs = none) :
    engineOption cs = none := by
  rw [engineOption, h]
  rfl

/-- No character set without one of its keywords. -/
theorem charsetOption_eq_none {cs : List Char} (hshort : keyword "CHARSET" cs = none)
    (hlong : phrase "CHARACTER" "SET" cs = none) : charsetOption cs = none := by
  rw [phrase, Option.bind_assoc] at hlong
  simp only [charsetOption, hshort, Option.bind_eq_bind, hlong]
  rfl

/-- No comment without its keyword. -/
theorem commentOption_eq_none {cs : List Char} (h : keyword "COMMENT" cs = none) :
    commentOption cs = none := by
  rw [commentOption, h]
  rfl

/-- No character set is found in the option of the engine. -/
theorem silent_charsetOption_engine (engine : Option OptionWord) {rest : List Char}
    (hclause : IsClause rest) (hrest : Spaced rest) :
    Silent charsetOption (engineText engine) rest := by
  refine Silent.both (fun cs => charsetOption_eq_none)
    (silent_engine (by decide) engine hrest) ?_
  cases engine with
  | none => trivial
  | some engine =>
      have hname : Silent (keyword "CHARACTER") " ENGINE".toList [] := by decide
      exact silent_phrase_option hname (engine.silent_phrase hclause)

/-- No character set is found in the comment. -/
theorem silent_charsetOption_tableComment (comment : Option Literal) (rest : List Char) :
    Silent charsetOption (tableCommentText comment) rest := by
  refine Silent.both (fun cs => charsetOption_eq_none)
    (silent_tableComment (by decide) comment rest) ?_
  cases comment with
  | none => trivial
  | some text =>
      have hname : Silent (keyword "CHARACTER") " COMMENT".toList [] := by decide
      have hsearched : ("CHARACTER", "SET") ∈ searchedPhrases := by decide
      exact silent_phrase_option hname (text.silent_phrase hsearched rest)

/-! ## Searches over the options -/

/-- A comment ends the options. -/
theorem spaced_tableComment (comment : Option Literal) : Spaced (tableCommentText comment) := by
  have hempty : Spaced [] := fun c hc => nomatch hc
  have hspaced := (isClause_tableComment comment).spaced hempty
  rwa [List.append_nil] at hspaced

/-- The engine is found exactly when it was written. -/
theorem searchFirst_engineOption (t : TableDef) :
    searchFirst engineOption t.options = t.engine.map fun engine => engine.chars := by
  have hcomment := spaced_tableComment t.comment
  have hlater := (isClause_charset t.charset).spaced hcomment
  rw [TableDef.options, searchFirst]
  cases t.engine with
  | some engine =>
      have hfound : engineOption ('E' :: ("NGINE=".toList ++ (engine.chars ++
          (charsetText t.charset ++ tableCommentText t.comment)))) = some engine.chars :=
        engine.optionWord_append hlater.boundary
      have hsearch := search_behind_space (silent_nil engineOption _) rfl hfound
      show (search engineOption none ([] ++ ' ' :: 'E' :: ("NGINE=".toList ++ (engine.chars ++
        (charsetText t.charset ++ tableCommentText t.comment))))).map Prod.snd = some engine.chars
      rw [hsearch]
      rfl
  | none =>
      have hall : Silent (keyword "ENGINE")
          (charsetText t.charset ++ tableCommentText t.comment) [] := by
        refine silent_append.mpr ⟨?_, silent_tableComment (by decide) _ _⟩
        rw [List.append_nil]
        exact silent_charset (by decide) _ hcomment
      show (search engineOption none
        (charsetText t.charset ++ tableCommentText t.comment)).map Prod.snd = none
      rw [search_eq_none (hall.mono fun cs => engineOption_eq_none)]
      rfl

/-- The character set is found exactly when it was written. -/
theorem searchFirst_charsetOption (t : TableDef) :
    searchFirst charsetOption t.options = t.charset.map fun charset => charset.chars := by
  have hcomment := spaced_tableComment t.comment
  have hlater := (isClause_charset t.charset).spaced hcomment
  have hclause := (isClause_charset t.charset).append (isClause_tableComment t.comment)
  have hengine := silent_charsetOption_engine t.engine hclause hlater
  rw [TableDef.options, searchFirst]
  cases hcharset : t.charset with
  | some charset =>
      have hfound : charsetOption ('C' :: ("HARSET=".toList ++ (charset.chars ++
          tableCommentText t.comment))) = some charset.chars :=
        charset.optionWord_append hcomment.boundary
      have hfront : Silent charsetOption (engineText t.engine ++ " DEFAULT".toList)
          (' ' :: 'C' :: ("HARSET=".toList ++ (charset.chars ++ tableCommentText t.comment))) := by
        refine silent_append.mpr ⟨?_, ?_⟩
        · rw [hcharset] at hengine
          exact hengine
        · have hword : Silent (keyword "CHARSET") " DEFAULT".toList [] ∧
              Silent (keyword "CHARACTER") " DEFAULT".toList [] := by decide
          refine Silent.both (fun cs => charsetOption_eq_none)
            ((silent_keyword_iff (by decide) rfl).mpr hword.1) ?_
          exact ((silent_keyword_iff (by decide) rfl).mpr hword.2).mono
            fun cs h => phrase_eq_none h _
      have hsearch := search_behind_space hfront rfl hfound
      have htext : engineText t.engine ++ (charsetText (some charset) ++
          tableCommentText t.comment) = (engineText t.engine ++ " DEFAULT".toList) ++ ' ' :: 'C' ::
            ("HARSET=".toList ++ (charset.chars ++ tableCommentText t.comment)) := by
        show _ ++ ((" DEFAULT".toList ++ " CHARSET=".toList) ++ charset.chars ++ _) = _
        simp only [List.append_assoc]
        rfl
      rw [htext, hsearch]
      rfl
  | none =>
      have hall : Silent charsetOption (engineText t.engine ++ tableCommentText t.comment) [] := by
        refine silent_append.mpr ⟨?_, silent_charsetOption_tableComment _ _⟩
        rw [List.append_nil]
        rw [hcharset] at hengine
        exact hengine
      show (search charsetOption none
        (engineText t.engine ++ tableCommentText t.comment)).map Prod.snd = none
      rw [search_eq_none hall]
      rfl

/-- The comment is found exactly when it was written. -/
theorem searchFirst_commentOption (t : TableDef) :
    searchFirst commentOption t.options = t.comment.map fun comment => comment.chars := by
  have hcomment := spaced_tableComment t.comment
  have hlater := (isClause_charset t.charset).spaced hcomment
  have hfront : Silent (keyword "COMMENT") (engineText t.engine ++ charsetText t.charset)
      (tableCommentText t.comment) :=
    silent_append.mpr ⟨silent_engine (by decide) _ hlater, silent_charset (by decide) _ hcomment⟩
  have hsilent := hfront.mono fun cs => commentOption_eq_none
  rw [TableDef.options, searchFirst, ← List.append_assoc]
  cases htext : t.comment with
  | some text =>
      have hfound : commentOption ('C' :: ("OMMENT=".toList ++ text.text)) = some text.chars := by
        show (singleQuoted (text.chars ++ ['\''])).bind (fun read => some read.1) = _
        rw [singleQuoted_append text.isText (by simp)]
        rfl
      have hbefore : Silent commentOption (engineText t.engine ++ charsetText t.charset)
          (' ' :: 'C' :: ("OMMENT=".toList ++ text.text)) := by
        rw [htext] at hsilent
        exact hsilent
      have hsearch := search_behind_space hbefore rfl hfound
      show (search commentOption none ((engineText t.engine ++ charsetText t.charset) ++
        ' ' :: 'C' :: ("OMMENT=".toList ++ text.text))).map Prod.snd = some text.chars
      rw [hsearch]
      rfl
  | none =>
      rw [htext] at hsilent
      show (search commentOption none
        ((engineText t.engine ++ charsetText t.charset) ++ [])).map Prod.snd = none
      rw [List.append_nil, search_eq_none hsilent]
      rfl

end CodeIndex.Sql
