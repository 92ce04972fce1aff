import CodeIndex.Proofs.Sql.TemplatePart
import CodeIndex.Proofs.Text.LetterCase
import CodeIndex.Proofs.Text.Squeeze

/-!
# Columns and keys by their leading identifier

A part that starts with an identifier, blanks and the word of a type is a column, unless the
identifier is bare and spells a reserved word.  It may well start with the letters of one: then the
keyword is read, but what is left of the identifier stands where a key wants blanks, or a word that
names the key and is not followed by its list.

* `keyword_identifier` : what a keyword reads of an identifier.
* `parseKey_identifier`, `parseColumn_identifier` : the part is no key, and a column of that name.
* `parseColumn_reserved` : a reserved word is not the name of a column.
* `parts_by_leader` : columns and keys are told apart by the leading identifier.
-/

namespace CodeIndex.Sql

open Text

/-- The word spells, up to simple case folding, one of those that mark a part as a constraint. -/
def Word.Reserved (name : Word) : Prop :=
  ∃ word ∈ reservedLeaders, Spells word.toList name.chars

instance (name : Word) : Decidable name.Reserved :=
  inferInstanceAs (Decidable (∃ word ∈ reservedLeaders, Spells word.toList name.chars))

/-! ## Letter case -/

/-- A capital in another letter case folds to it. -/
theorem foldsTo_of_asciiLower {letter c : Char} (hletter : letter ∈ capitals)
    (h : asciiLower letter = asciiLower c) : foldsTo letter c = true := by
  have hlower : ∀ letter ∈ capitals, foldsTo letter (asciiLower letter) = true := by decide
  have hcapital : ∀ letter ∈ capitals, ∀ c ∈ capitals, asciiLower letter = asciiLower c →
      foldsTo letter c = true := by decide
  rcases asciiLower_cases c with hsame | hc
  · rw [hsame] at h
    rw [← h]
    exact hlower letter hletter
  · exact hcapital letter hletter c hc h

/-- A word that is one of capitals up to ASCII case spells it. -/
theorem spells_of_sameIgnoringCase {letters text : List Char}
    (hletters : ∀ letter ∈ letters, letter ∈ capitals)
    (h : sameIgnoringCase letters text = true) : Spells letters text := by
  rw [sameIgnoringCase_iff] at h
  induction letters generalizing text with
  | nil =>
      rw [List.map_nil, eq_comm, List.map_eq_nil_iff] at h
      rw [h]
      exact .nil
  | cons letter letters ih =>
      cases text with
      | nil => cases h
      | cons c text =>
          obtain ⟨hhead, htail⟩ := List.cons.inj h
          exact .cons (foldsTo_of_asciiLower (hletters letter List.mem_cons_self) hhead)
            (ih (fun l hl => hletters l (List.mem_cons_of_mem _ hl)) htail)

/-- The reserved words are keywords made of capitals. -/
theorem reservedLeaders_capitals :
    ∀ word ∈ reservedLeaders, IsKeyword word ∧ ∀ letter ∈ word.toList, letter ∈ capitals := by
  decide

/-- A bare word that is reserved up to ASCII case is so up to simple case folding. -/
theorem Word.reserved_of_isReservedLeader {name : Word}
    (h : isReservedLeader name.chars = true) : name.Reserved := by
  simp only [isReservedLeader, Bool.and_eq_true, List.any_eq_true] at h
  obtain ⟨-, word, hword, hsame⟩ := h
  exact ⟨word, hword, spells_of_sameIgnoringCase (reservedLeaders_capitals word hword).2 hsame⟩

/-! ## Keywords in front of an identifier -/

section

variable {name type : Word} {gap rest : List Char}

/-- What a keyword reads of an identifier: nothing, all of it, or some word in front of another. -/
theorem keyword_identifier {word : String} (hword : IsKeyword word) (name : Word)
    (hrest : isBoundary rest.head? = true) :
    keyword word (name.chars ++ rest) = none ∨ Spells word.toList name.chars ∨
      ∃ left : Word, keyword word (name.chars ++ rest) = some (left.chars ++ rest) := by
  rw [keyword_append hword name.chars hrest]
  cases hread : keyword word name.chars with
  | none => exact .inl rfl
  | some left =>
      obtain ⟨text, hspells, hsplit⟩ := afterLetters_eq_some_iff.mp hread
      cases left with
      | nil =>
          rw [List.append_nil] at hsplit
          exact .inr (.inl (hsplit ▸ hspells))
      | cons c left =>
          have hleft : ∀ d ∈ c :: left, isWordChar d = true := fun d hd =>
            name.isWord d (hsplit ▸ List.mem_append_right text hd)
          exact .inr (.inr ⟨⟨c :: left, by simp, hleft⟩, rfl⟩)

/-- No blanks stand in front of a word. -/
theorem Word.blanks_eq_none (name : Word) (rest : List Char) :
    blanks (name.chars ++ rest) = none := by
  obtain ⟨c, more, hchars⟩ := List.exists_cons_of_ne_nil name.ne_nil
  have hc : isBlank c = false := name.not_blank c (by rw [hchars]; exact List.mem_cons_self)
  simp [hchars, blanks, hc]

/-- A word starts with no blank. -/
theorem Word.trimStart_append (name : Word) (rest : List Char) :
    trimStart (name.chars ++ rest) = name.chars ++ rest := by
  obtain ⟨c, more, hchars⟩ := List.exists_cons_of_ne_nil name.ne_nil
  rw [hchars]
  exact trimStart_cons_of_not_blank (name.not_blank c (by rw [hchars]; exact List.mem_cons_self)) _

/-- A word starts with no quote. -/
theorem Word.optionalMark_append (name : Word) (rest : List Char) :
    optionalMark ['\x60', '"'] (name.chars ++ rest) = name.chars ++ rest := by
  obtain ⟨c, more, hchars⟩ := List.exists_cons_of_ne_nil name.ne_nil
  have hc : isWordChar c = true := name.isWord c (by rw [hchars]; exact List.mem_cons_self)
  have hout : c ≠ '\x60' ∧ c ≠ '"' :=
    ⟨ne_of_isWordChar hc (by decide), ne_of_isWordChar hc (by decide)⟩
  simp [hchars, optionalMark, hout.1, hout.2]

/-- A keyword that the identifier does not spell has no blanks behind it. -/
theorem keyword_blanks_identifier {word : String} (hword : IsKeyword word)
    (hname : ¬ Spells word.toList name.chars) (hrest : isBoundary rest.head? = true) :
    (keyword word (name.chars ++ rest)).bind blanks = none := by
  rcases keyword_identifier hword name hrest with hnone | hspells | ⟨left, hleft⟩
  · rw [hnone]
    rfl
  · exact absurd hspells hname
  · rw [hleft]
    exact left.blanks_eq_none rest

/-- A name that is none of the keywords is not read as one. -/
theorem anyKeyword_blanks_identifier {words : List String}
    (hwords : ∀ word ∈ words, IsKeyword word ∧ ¬ Spells word.toList name.chars)
    (hrest : isBoundary rest.head? = true) :
    (anyKeyword words (name.chars ++ rest)).bind blanks = none := by
  cases hread : anyKeyword words (name.chars ++ rest) with
  | none => rfl
  | some left =>
      obtain ⟨word, hword, hleft⟩ := List.exists_of_findSome?_eq_some hread
      obtain ⟨hkey, hname⟩ := hwords word hword
      have hnone := keyword_blanks_identifier hkey hname hrest
      rwa [hleft] at hnone

/-! ## The part is no key -/

/-- Blanks end a word. -/
theorem boundary_of_blank (hne : gap ≠ []) (hgap : ∀ c ∈ gap, isBlank c = true)
    (rest : List Char) : isBoundary (gap ++ rest).head? = true := by
  obtain ⟨c, more, rfl⟩ := List.exists_cons_of_ne_nil hne
  simp [isBoundary, isWordChar_of_isBlank (hgap c List.mem_cons_self)]

/-- Blanks start with no quote of a name. -/
theorem optionalMark_blank (hne : gap ≠ []) (hgap : ∀ c ∈ gap, isBlank c = true)
    (rest : List Char) : optionalMark ['\x60', '"'] (gap ++ rest) = gap ++ rest := by
  obtain ⟨c, more, rfl⟩ := List.exists_cons_of_ne_nil hne
  have hc := hgap c List.mem_cons_self
  simp [optionalMark, ne_of_isBlank hc (d := '\x60') (by decide),
    ne_of_isBlank hc (d := '"') (by decide)]

/-- A word, blanks and another word are no tail of a key: the list is missing. -/
theorem keyTail_identifier (left type : Word) (hne : gap ≠ [])
    (hgap : ∀ c ∈ gap, isBlank c = true) (rest : List Char) :
    keyTail (left.chars ++ (gap ++ (type.chars ++ rest))) = none := by
  have hread : word (left.chars ++ (gap ++ (type.chars ++ rest)))
      = some (left.chars, gap ++ (type.chars ++ rest)) :=
    left.read (boundary_of_blank hne hgap _)
  have hopen : parenBody (type.chars ++ rest) = none := by
    obtain ⟨c, more, hchars⟩ := List.exists_cons_of_ne_nil type.ne_nil
    have hc : c ≠ '(' :=
      ne_of_isWordChar (type.isWord c (by rw [hchars]; exact List.mem_cons_self)) (by decide)
    simp [hchars, parenBody, symbol, hc]
  have hname : keyName (left.chars ++ (gap ++ (type.chars ++ rest)))
      = (some left.chars, type.chars ++ rest) := by
    rw [keyName, left.trimStart_append, quotedName, left.optionalMark_append, hread,
      Option.map_some, optionalMark_blank hne hgap]
    simp only
    rw [trimStart_append_of_eq_nil (trimStart_of_blank hgap), type.trimStart_append]
  rw [keyTail_eq, hname, hopen]
  rfl

/-- A name and a type are not read as the rest of a key. -/
theorem optionalKeyTail_identifier (left type : Word) (hne : gap ≠ [])
    (hgap : ∀ c ∈ gap, isBlank c = true) (rest : List Char) :
    optionalKeyTail (left.chars ++ (gap ++ (type.chars ++ rest))) = none := by
  rw [optionalKeyTail, left.blanks_eq_none, keyTail_identifier left type hne hgap]
  rfl

/-- **A bare identifier that is not reserved starts no key**, whatever stands behind the word that
follows it. -/
theorem parseKey_identifier (hname : ¬ name.Reserved) (hne : gap ≠ [])
    (hgap : ∀ c ∈ gap, isBlank c = true) (type : Word) (rest : List Char) :
    parseKey (name.chars ++ (gap ++ (type.chars ++ rest))) = none := by
  have hend : isBoundary (gap ++ (type.chars ++ rest)).head? = true :=
    boundary_of_blank hne hgap _
  have hunspelled : ∀ word ∈ reservedLeaders, ¬ Spells word.toList name.chars :=
    fun word hword hspells => hname ⟨word, hword, hspells⟩
  have hconstraint : afterConstraint (name.chars ++ (gap ++ (type.chars ++ rest)))
      = name.chars ++ (gap ++ (type.chars ++ rest)) := by
    have hkey : IsKeyword "CONSTRAINT" := by decide
    have hnone := keyword_blanks_identifier hkey (hunspelled _ (by decide)) hend
    simp only [afterConstraint, Option.bind_eq_bind, ← Option.bind_assoc, hnone]
    rfl
  have hprimary : primaryKey (name.chars ++ (gap ++ (type.chars ++ rest))) = none := by
    rw [primaryKey_eq, hconstraint,
      keyword_blanks_identifier (by decide) (hunspelled _ (by decide)) hend]
    rfl
  have htail : ∀ word ∈ ["UNIQUE", "FULLTEXT"],
      (keyword word (name.chars ++ (gap ++ (type.chars ++ rest)))).bind optionalKeyTail = none := by
    have hfixed : ∀ word ∈ ["UNIQUE", "FULLTEXT"], IsKeyword word ∧ word ∈ reservedLeaders := by
      decide
    intro word hword
    obtain ⟨hkey, hmem⟩ := hfixed word hword
    rcases keyword_identifier hkey name hend with hnone | hspells | ⟨left, hleft⟩
    · rw [hnone]
      rfl
    · exact absurd hspells (hunspelled word hmem)
    · rw [hleft]
      exact optionalKeyTail_identifier left type hne hgap rest
  have hunique : uniqueKey (name.chars ++ (gap ++ (type.chars ++ rest))) = none := by
    simp only [uniqueKey, hconstraint, Option.bind_eq_bind, ← Option.bind_assoc,
      htail "UNIQUE" (by decide)]
    rfl
  have hfulltext : fulltextKey (name.chars ++ (gap ++ (type.chars ++ rest))) = none := by
    simp only [fulltextKey, Option.bind_eq_bind, ← Option.bind_assoc,
      htail "FULLTEXT" (by decide)]
    rfl
  have hplain : plainKey (name.chars ++ (gap ++ (type.chars ++ rest))) = none := by
    have hkinds : ∀ word ∈ ["KEY", "INDEX"], IsKeyword word ∧ word ∈ reservedLeaders := by decide
    have hwords : ∀ word ∈ ["KEY", "INDEX"], IsKeyword word ∧ ¬ Spells word.toList name.chars :=
      fun word hword => ⟨(hkinds word hword).1, hunspelled word (hkinds word hword).2⟩
    have hnone := anyKeyword_blanks_identifier hwords hend
    simp only [plainKey, Option.bind_eq_bind, ← Option.bind_assoc, hnone]
    rfl
  rw [parseKey, hprimary, hunique, hfulltext, hplain]
  rfl

/-- A quoted identifier starts no key. -/
theorem parseKey_quoted {quoting : Quoting} (hquoting : quoting ≠ .bare) (rest : List Char) :
    parseKey (quoting.mark ++ rest) = none := by
  cases quoting with
  | bare => exact absurd rfl hquoting
  | backtick => rfl
  | double => rfl

/-! ## The part is a column -/

/-- The mark of an identifier is no blank. -/
theorem Quoting.not_blank (quoting : Quoting) : ∀ c ∈ quoting.mark, isBlank c = false := by
  cases quoting <;> decide

/-- The quote in front of a name is read, if there is one. -/
theorem Quoting.optionalMark_name (quoting : Quoting) (name : Word) (rest : List Char) :
    optionalMark ['\x60', '"'] (quoting.mark ++ (name.chars ++ rest)) = name.chars ++ rest := by
  cases quoting with
  | bare => exact name.optionalMark_append rest
  | backtick => rfl
  | double => rfl

/-- The name of a column is the identifier without its quotes. -/
theorem columnName_identifier (quoting : Quoting) (name type : Word) (hne : gap ≠ [])
    (hgap : ∀ c ∈ gap, isBlank c = true) (rest : List Char) :
    columnName (quoting.mark ++ (name.chars ++ (quoting.mark ++ (gap ++ (type.chars ++ rest)))))
      = some (name.chars, type.chars ++ rest) := by
  have hblanks : blanks (gap ++ (type.chars ++ rest)) = some (type.chars ++ rest) := by
    rw [blanks_append hne hgap, type.trimStart_append]
  have hclose : optionalMark ['\x60', '"'] (quoting.mark ++ (gap ++ (type.chars ++ rest)))
      = gap ++ (type.chars ++ rest) := by
    cases quoting with
    | bare => exact optionalMark_blank hne hgap _
    | backtick => rfl
    | double => rfl
  have hend : isBoundary (quoting.mark ++ (gap ++ (type.chars ++ rest))).head? = true := by
    cases quoting with
    | bare => exact boundary_of_blank hne hgap _
    | backtick => rfl
    | double => rfl
  rw [columnName, quotedName, quoting.optionalMark_name, name.read hend, Option.map_some,
    Option.bind_some, hclose, hblanks]
  rfl

/-- The first word of the part is the identifier with its quotes. -/
theorem words_identifier (quoting : Quoting) (name : Word) (hne : gap ≠ [])
    (hgap : ∀ c ∈ gap, isBlank c = true) (rest : List Char) :
    (words (quoting.mark ++ (name.chars ++ (quoting.mark ++ (gap ++ rest))))).head?
      = some (quoting.mark ++ (name.chars ++ quoting.mark)) := by
  obtain ⟨b, more, rfl⟩ := List.exists_cons_of_ne_nil hne
  have hleader : ∀ c ∈ quoting.mark ++ (name.chars ++ quoting.mark), isBlank c = false := by
    intro c hc
    rcases List.mem_append.mp hc with hmark | hc
    · exact quoting.not_blank c hmark
    · rcases List.mem_append.mp hc with hname | hmark
      · exact name.not_blank c hname
      · exact quoting.not_blank c hmark
  have htext : quoting.mark ++ (name.chars ++ (quoting.mark ++ (b :: more ++ rest)))
      = (quoting.mark ++ (name.chars ++ quoting.mark)) ++ b :: (more ++ rest) := by
    simp
  rw [htext, words_append_blank (hgap b List.mem_cons_self),
    words_of_not_blank hleader (by simp [name.ne_nil])]
  rfl

/-- **An identifier that is quoted or not reserved names a column**, whatever stands behind the
word of its type. -/
theorem parseColumn_identifier {quoting : Quoting} (hname : quoting = .bare → ¬ name.Reserved)
    (hne : gap ≠ []) (hgap : ∀ c ∈ gap, isBlank c = true) (type : Word) (rest : List Char) :
    (parseColumn (quoting.mark ++ (name.chars ++ (quoting.mark ++
      (gap ++ (type.chars ++ rest)))))).map Column.name = some (String.ofList name.chars) := by
  have hleader : isReservedLeader (quoting.mark ++ (name.chars ++ quoting.mark)) = false := by
    cases quoting with
    | bare =>
        have hbare : isReservedLeader name.chars = false := by
          by_contra hreserved
          exact hname rfl (Word.reserved_of_isReservedLeader (by simpa using hreserved))
        simpa [Quoting.mark] using hbare
    | backtick => rfl
    | double => rfl
  obtain ⟨c, more, hchars⟩ := List.exists_cons_of_ne_nil type.ne_nil
  have hc : isWordChar c = true := type.isWord c (by rw [hchars]; exact List.mem_cons_self)
  have hword : (word (type.chars ++ rest)).isSome = true := by
    simp [word, hchars, hc]
  obtain ⟨read, hread⟩ := Option.isSome_iff_exists.mp hword
  rw [parseColumn_name, words_identifier quoting name hne hgap, Option.bind_some, hleader,
    columnName_identifier quoting name type hne hgap, Option.bind_some, hread]
  rfl

/-- **A reserved word names no column**, be it a word of its own or in front of a list. -/
theorem parseColumn_reserved {stop : Char} (hname : isReservedLeader name.chars = true)
    (hstop : isBlank stop = true ∨ stop = '(') (rest : List Char) :
    parseColumn (name.chars ++ stop :: rest) = none := by
  rw [parseColumn_eq]
  rcases hstop with hblank | rfl
  · rw [words_append_blank hblank, words_of_not_blank name.not_blank name.ne_nil]
    simp [hname]
  · have hread : word (name.chars ++ '(' :: rest) = some (name.chars, '(' :: rest) :=
      name.read rfl
    have hhead : columnHead (name.chars ++ '(' :: rest) = none := by
      simp only [columnHead, name.optionalMark_append, hread, Option.bind_eq_bind, Option.bind_some]
      rfl
    simp [hhead]

/-- A word that is reserved up to ASCII case is a reserved leader. -/
theorem Word.isReservedLeader_of_same {name : Word} {word : String} (hword : word ∈ reservedLeaders)
    (h : sameIgnoringCase word.toList name.chars = true) : isReservedLeader name.chars = true := by
  obtain ⟨c, more, hchars⟩ := List.exists_cons_of_ne_nil name.ne_nil
  have hc : isWordChar c = true := name.isWord c (by rw [hchars]; exact List.mem_cons_self)
  have hout : c ≠ '\x60' ∧ c ≠ '"' :=
    ⟨ne_of_isWordChar hc (by decide), ne_of_isWordChar hc (by decide)⟩
  have hany : reservedLeaders.any (fun word => sameIgnoringCase word.toList name.chars) = true :=
    List.any_eq_true.mpr ⟨word, hword, h⟩
  rw [isReservedLeader, hany, hchars]
  simp [startsWith, List.isPrefixOf, Ne.symm hout.1, Ne.symm hout.2]

end

/-- **Columns and keys are told apart by the leading identifier.**  A part that starts with an
identifier, blanks and a word is no key and a column of that name if the identifier is quoted or
spells no reserved word up to simple case folding; a part whose bare identifier is a reserved word
up to ASCII case, in front of a blank or a list, is no column. -/
theorem parts_by_leader :
    (∀ (quoting : Quoting) (name type : Word) (gap rest : List Char), gap ≠ [] →
      (∀ c ∈ gap, isBlank c = true) → (quoting = .bare → ¬ name.Reserved) →
      let part := quoting.mark ++ (name.chars ++ (quoting.mark ++ (gap ++ (type.chars ++ rest))))
      parseKey part = none ∧
        ∃ column, parseColumn part = some column ∧ column.name = String.ofList name.chars) ∧
    ∀ (name : Word) (stop : Char) (rest : List Char),
      (∃ word ∈ reservedLeaders, sameIgnoringCase word.toList name.chars = true) →
      isBlank stop = true ∨ stop = '(' → parseColumn (name.chars ++ stop :: rest) = none := by
  refine ⟨?_, ?_⟩
  · intro quoting name type gap rest hne hgap hname part
    constructor
    · by_cases hquoting : quoting = .bare
      · subst hquoting
        exact parseKey_identifier (hname rfl) hne hgap type rest
      · exact parseKey_quoted hquoting _
    · have hread := parseColumn_identifier hname hne hgap type rest
      exact Option.map_eq_some_iff.mp hread
  · rintro name stop rest ⟨word, hword, hsame⟩ hstop
    exact parseColumn_reserved (Word.isReservedLeader_of_same hword hsame) hstop rest

/-- A quoted reserved word, words that only start with one, and reserved words themselves. -/
theorem parts_by_leader_names :
    let key : Word := ⟨"key".toList, by decide, by decide⟩
    let check : Word := ⟨"Check".toList, by decide, by decide⟩
    let names : List Word := [⟨"unique_id".toList, by decide, by decide⟩,
      ⟨"primary_email".toList, by decide, by decide⟩, ⟨"keyword".toList, by decide, by decide⟩,
      ⟨"index_no".toList, by decide, by decide⟩, ⟨"check_in".toList, by decide, by decide⟩,
      ⟨"fulltext_x".toList, by decide, by decide⟩]
    (∀ c ∈ [' '], isBlank c = true) ∧ (∀ name ∈ names, ¬ name.Reserved) ∧ key.Reserved ∧
    sameIgnoringCase "CHECK".toList check.chars = true ∧
    (∀ name ∈ names, parseKey (name.chars ++ " int(11) UNIQUE KEY (x)".toList) = none ∧
      (parseColumn (name.chars ++ " int(11) UNIQUE KEY (x)".toList)).map Column.name
        = some (String.ofList name.chars)) ∧
    (parseColumn "\x60key\x60 int".toList).map Column.name = some "key" ∧
    parseColumn "Check(x > 0)".toList = none := by
  intro key check names
  let int : Word := ⟨"int".toList, by decide, by decide⟩
  have hgap : ∀ c ∈ [' '], isBlank c = true := by decide
  have hnames : ∀ name ∈ names, ¬ name.Reserved := by decide
  have hcheck : sameIgnoringCase "CHECK".toList check.chars = true := by decide
  obtain ⟨hcolumns, hreserved⟩ := parts_by_leader
  refine ⟨hgap, hnames, by decide, hcheck, ?_, ?_, ?_⟩
  · intro name hname
    obtain ⟨hkey, column, hread, hcolumn⟩ := hcolumns .bare name int [' ']
      "(11) UNIQUE KEY (x)".toList (by decide) hgap (fun _ => hnames name hname)
    exact ⟨hkey, Option.map_eq_some_iff.mpr ⟨column, hread, hcolumn⟩⟩
  · obtain ⟨-, column, hread, hcolumn⟩ := hcolumns .backtick key int [' '] [] (by decide) hgap
      (fun h => by cases h)
    exact Option.map_eq_some_iff.mpr ⟨column, hread, hcolumn⟩
  · exact hreserved check '(' "x > 0)".toList ⟨"CHECK", by decide, hcheck⟩ (.inr rfl)

end CodeIndex.Sql
