import CodeIndex.Proofs.Sql.Search

/-!
# Types and defaults as a whole

The list of a type and a default in parentheses are read up to the first closing parenthesis, and a
default in double quotes up to the first quote that is not escaped; a default in single quotes is
read up to its last quote.  So each of them is read as a whole exactly when no such character
stands inside.

A default is looked for in what is left of a column when its comment is taken out.  As long as the
comment stands apart from the default, taking it out moves the default but brings no other one in
front of it: a keyword that would be read together with what follows the comment would have been
read with the comment itself.

* `type_whole_iff` : the list of a type.
* `defaultText_single`, `defaultText_double_iff`, `defaultText_list_iff` : the kinds of values.
* `searchFirst_default` : the default that is found.
* `parseColumn_whole` : what a column holds of its type and its default.
* `parseColumn_whole_cut` : lists and defaults that are cut short.
-/

namespace CodeIndex.Sql

open Text

/-! ## The text of a type -/

/-- Squeezing the words of a text together keeps all of it but the blanks. -/
theorem filter_join_words (cs : List Char) :
    (join [' '] (words cs)).filter (!isBlank ·) = cs.filter (!isBlank ·) := by
  have hfrom : ∀ cur, (∀ c ∈ cur, isBlank c = false) →
      (join [' '] (wordsFrom cur cs)).filter (!isBlank ·) = cur ++ cs.filter (!isBlank ·) := by
    induction cs with
    | nil =>
        intro cur hcur
        cases cur with
        | nil => rfl
        | cons c cur => simpa [wordsFrom, join] using hcur
    | cons c cs ih =>
        intro cur hcur
        by_cases hc : isBlank c = true
        · have hrest := ih [] (by simp)
          rw [List.filter_cons_of_neg (by simp [hc])]
          cases cur with
          | nil => simpa [wordsFrom, hc] using hrest
          | cons d cur =>
              have hkeep : (d :: cur).filter (!isBlank ·) = d :: cur :=
                List.filter_eq_self.mpr fun e he => by simp [hcur e he]
              rw [List.nil_append] at hrest
              simp only [wordsFrom, hc, if_true, List.isEmpty_cons, Bool.false_eq_true, if_false]
              cases hwords : wordsFrom [] cs with
              | nil =>
                  rw [hwords] at hrest
                  rw [join, hkeep, ← hrest]
                  simp [join]
              | cons w ws =>
                  rw [hwords] at hrest
                  rw [join_cons (by simp), List.filter_append, List.filter_append, hkeep, hrest,
                    List.append_assoc]
                  rfl
        · have hc' : isBlank c = false := by simpa using hc
          have hrest := ih (cur ++ [c]) (by
            intro d hd
            rcases List.mem_append.mp hd with hd | hd
            · exact hcur d hd
            · rw [List.mem_singleton.mp hd]
              exact hc')
          rw [List.filter_cons_of_pos (by simp [hc']), wordsFrom, if_neg hc, hrest]
          simp
  exact hfrom [] (by simp)

/-- A character that is no blank stands as often in a text as in its words. -/
theorem count_join_words {c : Char} (hc : isBlank c = false) (cs : List Char) :
    (join [' '] (words cs)).count c = cs.count c := by
  have hkeep : ∀ text : List Char, (text.filter (!isBlank ·)).count c = text.count c := fun text =>
    List.count_filter (p := (!isBlank ·)) (by simp [hc])
  rw [← hkeep, filter_join_words, hkeep]

/-- The words of a text come first when more words follow behind a blank. -/
theorem join_words_prefix {tail : List Char}
    (htail : ∀ c, tail.head? = some c → isBlank c = true) (cs : List Char) :
    join [' '] (words cs) <+: join [' '] (words (cs ++ tail)) := by
  cases tail with
  | nil => exact ⟨[], by simp⟩
  | cons b tail =>
      rw [words_append_blank (htail b rfl)]
      by_cases hfront : words cs = []
      · rw [hfront]
        exact List.nil_prefix
      · by_cases hback : words tail = []
        · exact ⟨[], by simp [hback]⟩
        · rw [join_append hfront hback, List.append_assoc]
          exact List.prefix_append _ _

/-- A further word of a type consists of blanks and word characters. -/
theorem typeWord_blank {cs rest : List Char} (h : typeWord cs = some rest) :
    ∃ b more, cs = b :: (more ++ rest) ∧ isBlank b = true ∧
      ∀ c ∈ more, isBlank c = true ∨ isWordChar c = true := by
  obtain ⟨left, hleft, hread⟩ := Option.bind_eq_some_iff.mp h
  obtain ⟨word, hword, hkeyword⟩ := List.exists_of_findSome?_eq_some hread
  have hwords : ∀ word ∈ ["UNSIGNED", "SIGNED", "ZEROFILL"], IsKeyword word := by decide
  obtain ⟨text, hspells, rfl⟩ := keyword_eq_some_iff.mp hkeyword
  obtain ⟨gap, hne, hgap, rfl, -⟩ := blanks_eq_some_iff.mp hleft
  obtain ⟨b, gap, rfl⟩ := List.exists_cons_of_ne_nil hne
  refine ⟨b, gap ++ text, by simp, hgap b List.mem_cons_self, ?_⟩
  intro c hc
  rcases List.mem_append.mp hc with hc | hc
  · exact .inl (hgap c (List.mem_cons_of_mem _ hc))
  · exact .inr (hspells.isWordChar (hwords word hword) c hc)

/-- Type words stand behind a blank and hold no other characters. -/
theorem typeWords_blank (fuel : Nat) (cs : List Char) :
    ∃ front, cs = front ++ typeWords fuel cs ∧ (∀ c, front.head? = some c → isBlank c = true) ∧
      ∀ c ∈ front, isBlank c = true ∨ isWordChar c = true := by
  induction fuel generalizing cs with
  | zero => exact ⟨[], rfl, by simp, by simp⟩
  | succ fuel ih =>
      rw [typeWords]
      cases hword : typeWord cs with
      | none => exact ⟨[], rfl, by simp, by simp⟩
      | some rest =>
          obtain ⟨b, more, rfl, hb, hmore⟩ := typeWord_blank hword
          obtain ⟨front, hfront, -, hchars⟩ := ih rest
          refine ⟨b :: (more ++ front), ?_, by simpa using hb, ?_⟩
          · rw [List.cons_append, List.append_assoc, ← hfront]
          · intro c hc
            rcases List.mem_cons.mp hc with rfl | hc
            · exact .inl hb
            · rcases List.mem_append.mp hc with hc | hc
              · exact hmore c hc
              · exact hchars c hc

/-- The type that is read ends with the first closing parenthesis, and type words. -/
theorem afterType_list {w gap list more : List Char} (hw : w ≠ [])
    (hword : ∀ c ∈ w, isWordChar c = true) (hgap : ∀ c ∈ gap, isBlank c = true)
    (hlist : ')' ∉ list) :
    afterType (w ++ (gap ++ '(' :: (list ++ ')' :: more))) = some (typeWords more.length more) := by
  have hboundary : isBoundary (gap ++ '(' :: (list ++ ')' :: more)).head? = true := by
    cases gap with
    | nil => rfl
    | cons b gap =>
        have hb : isWordChar b = false := isWordChar_of_isBlank (hgap b List.mem_cons_self)
        simp [isBoundary, hb]
  have hopen : trimStart (gap ++ '(' :: (list ++ ')' :: more)) = '(' :: (list ++ ')' :: more) :=
    trimStart_run hgap (flush_cons.mpr (by decide))
  have hclose : upToParen (list ++ ')' :: more) = some (list, more) := by
    rw [upToParen_eq, splitOnce?_eq_some_iff]
    exact ⟨rfl, hlist⟩
  rw [afterType_eq, word_append hw hword hboundary, Option.map_some, afterList, hopen, symbol,
    if_pos rfl, Option.bind_some, hclose]
  rfl

/-- The text of a type and what follows it. -/
theorem columnHead_typed {part name type rest : List Char}
    (h : columnHead part = some (name, type, rest)) : afterType (type ++ rest) = some rest := by
  rw [columnHead] at h
  obtain ⟨⟨name', left⟩, -, h⟩ := Option.bind_eq_some_iff.mp h
  obtain ⟨typed, -, h⟩ := Option.bind_eq_some_iff.mp h
  obtain ⟨rest', hrest, h⟩ := Option.bind_eq_some_iff.mp h
  obtain ⟨front, -, rfl⟩ := afterType_split hrest
  obtain ⟨rfl, htype⟩ := Prod.mk.inj (Option.some.inj h)
  obtain ⟨rfl, rfl⟩ := Prod.mk.inj htype
  simpa using hrest

/-- **The list of a type is read as a whole** exactly when it holds no closing parenthesis. -/
theorem type_whole_iff {w gap list more type rest : List Char} (hw : w ≠ [])
    (hword : ∀ c ∈ w, isWordChar c = true) (hgap : ∀ c ∈ gap, isBlank c = true)
    (htype : type ++ rest = w ++ (gap ++ '(' :: (list ++ ')' :: more)))
    (hrest : afterType (type ++ rest) = some rest) :
    join [' '] (words (w ++ (gap ++ '(' :: (list ++ [')'])))) <+: join [' '] (words type) ↔
      ')' ∉ list := by
  -- The type ends behind the first closing parenthesis and type words.
  have hread : ∀ {short later}, ')' ∉ short → list ++ ')' :: more = short ++ ')' :: later →
      ∃ tail, type = w ++ (gap ++ '(' :: (short ++ [')'])) ++ tail ∧
        (∀ c, tail.head? = some c → isBlank c = true) ∧
        ∀ c ∈ tail, isBlank c = true ∨ isWordChar c = true := by
    intro short later hshort hsplit
    rw [hsplit] at htype
    obtain ⟨tail, htail, hhead, hchars⟩ := typeWords_blank later.length later
    have hend : typeWords later.length later = rest := by
      rw [htype, afterType_list hw hword hgap hshort] at hrest
      exact Option.some.inj hrest
    rw [hend] at htail
    refine ⟨tail, ?_, hhead, hchars⟩
    have hwhole : type ++ rest = w ++ (gap ++ '(' :: (short ++ [')'])) ++ tail ++ rest := by
      rw [htype, htail]
      simp
    exact List.append_cancel_right hwhole
  constructor
  · intro hprefix hlist
    obtain ⟨short, long, rfl, hshort⟩ := List.eq_append_cons_of_mem hlist
    have hsplit : short ++ ')' :: long ++ ')' :: more = short ++ ')' :: (long ++ ')' :: more) := by
      simp
    obtain ⟨tail, rfl, -, hchars⟩ := hread hshort hsplit
    have hnot : ')' ∉ tail := by
      intro hmem
      rcases hchars _ hmem with h | h <;> exact absurd h (by decide)
    have hcount := hprefix.sublist.count_le ')'
    rw [count_join_words (by decide), count_join_words (by decide)] at hcount
    simp [List.count_eq_zero_of_not_mem hnot] at hcount
  · intro hlist
    obtain ⟨tail, rfl, hhead, -⟩ := hread hlist rfl
    exact join_words_prefix hhead _

/-! ## The value of a default -/

/-- A symbol is read. -/
theorem symbol_self (c : Char) (cs : List Char) : symbol c (c :: cs) = some cs := if_pos rfl

theorem symbol_of_ne {c d : Char} (h : d ≠ c) (cs : List Char) : symbol c (d :: cs) = none :=
  if_neg h

/-- Something is read from every text that does not start with a blank or a comma. -/
theorem defaultText_eq_none_iff {cs : List Char} : defaultText cs = none ↔
    ∀ c, cs.head? = some c → isBlank c = true ∨ c = ',' := by
  rw [defaultText_eq]
  cases cs with
  | nil => simp [symbol]
  | cons c cs =>
      by_cases hc : isBlank c = true ∨ c = ','
      · have hne : c ≠ '\'' ∧ c ≠ '"' ∧ c ≠ '(' := by
          rcases hc with hblank | rfl
          · exact ⟨ne_of_isBlank hblank (by decide), ne_of_isBlank hblank (by decide),
              ne_of_isBlank hblank (by decide)⟩
          · decide
        have hstop : (!isBlank c && c ≠ ',') = false := by
          rcases hc with hblank | rfl
          · simp [hblank]
          · simp
        simp only [symbol_of_ne hne.1, symbol_of_ne hne.2.1, symbol_of_ne hne.2.2,
          List.takeWhile_cons, hstop]
        simp [hc]
      · have hgo : (!isBlank c && c ≠ ',') = true := by
          simp only [not_or] at hc
          simp [hc]
        simp only [List.takeWhile_cons, hgo]
        simp [hc]

/-- A default in single quotes is read as a whole. -/
theorem defaultText_single {body tail : List Char} (hbody : Escaped '\'' body)
    (htail : Closes tail) :
    defaultText ('\'' :: (body ++ '\'' :: tail)) = some ('\'' :: (body ++ ['\''])) := by
  have hread := singleQuoted_eq_some_iff.mpr ⟨rfl, hbody, htail⟩
  rw [defaultText_eq, symbol_self, Option.bind_some, hread]
  rfl

/-- What is read up to a closing character is the whole exactly when the reading stops there. -/
theorem read_eq_iff {read : List Char → Option (List Char × List Char)} {close : Char}
    {body tail : List Char} {found : List Char × List Char}
    (hsplit : body ++ close :: tail = found.1 ++ close :: found.2)
    (hread : read (body ++ close :: tail) = some found) :
    found.1 = body ↔ read (body ++ close :: tail) = some (body, tail) := by
  obtain ⟨front, back⟩ := found
  rw [hread, Option.some.injEq, Prod.mk.injEq]
  constructor
  · rintro rfl
    exact ⟨rfl, (List.cons.inj (List.append_cancel_left hsplit)).2.symm⟩
  · exact And.left

/-- A default in double quotes is read as a whole exactly when each quote in it is escaped by a
backslash. -/
theorem defaultText_double_iff {body : List Char} (hbody : Escaped '"' body) (tail : List Char) :
    defaultText ('"' :: (body ++ '"' :: tail)) = some ('"' :: (body ++ ['"'])) ↔
      Enclosed '"' body := by
  have hclosed : ∃ found, doubleQuoted (body ++ '"' :: tail) = some found := by
    induction hbody with
    | nil => exact ⟨_, rfl⟩
    | plain hquote hslash _ ih =>
        obtain ⟨found, hfound⟩ := ih
        rw [List.cons_append, readsContent_doubleQuoted.plain _ _ hslash hquote, hfound]
        exact ⟨_, rfl⟩
    | slash _ ih =>
        obtain ⟨found, hfound⟩ := ih
        rw [List.cons_append, List.cons_append, doubleQuoted, hfound]
        exact ⟨_, rfl⟩
    | doubled _ _ => exact ⟨_, rfl⟩
  obtain ⟨found, hread⟩ := hclosed
  have hwhole := read_eq_iff (doubleQuoted_split _ _ hread) hread
  rw [doubleQuoted_eq_some_iff, and_iff_right rfl] at hwhole
  rw [← hwhole, defaultText_eq, symbol_of_ne (by decide), symbol_self, Option.bind_none,
    Option.bind_some, hread]
  simp

/-- A default in parentheses is read as a whole exactly when no closing parenthesis stands in it. -/
theorem defaultText_list_iff (inner tail : List Char) :
    defaultText ('(' :: (inner ++ ')' :: tail)) = some ('(' :: (inner ++ [')'])) ↔
      ')' ∉ inner := by
  have hclosed : upToParen (inner ++ ')' :: tail) ≠ none := by
    rw [upToParen_eq, Ne, splitOnce?_eq_none_iff]
    simp
  obtain ⟨found, hread⟩ := Option.ne_none_iff_exists'.mp hclosed
  have hsplit := hread
  rw [upToParen_eq, splitOnce?_eq_some_iff] at hsplit
  have hwhole := read_eq_iff hsplit.1 hread
  rw [upToParen_eq, splitOnce?_eq_some_iff, and_iff_right rfl] at hwhole
  rw [← hwhole, defaultText_eq, symbol_of_ne (by decide), symbol_of_ne (by decide), symbol_self,
    Option.bind_none, Option.bind_none, Option.bind_some, hread]
  simp

/-! ## The default that is found -/

/-- `DEFAULT` and a value stand in the text, and they are the first default in it.  The comment that
is taken out stands in front of them or behind them. -/
structure DefaultAt (rest front lead value behind : List Char) : Prop where
  keyword : IsLead "DEFAULT" lead
  split : rest = front ++ (lead ++ (value ++ behind))
  boundary : isBoundary front.getLast? = true
  first : ∀ u w, rest = u ++ w → u.length < front.length → isBoundary u.getLast? = true →
    columnDefault w = none
  apart : ∀ found ∈ search columnComment none rest,
    front ++ (lead ++ value) <+: found.1 ∨ lead ++ (value ++ behind) <:+ found.2.2

/-- A default is its keyword, blanks and a value. -/
theorem columnDefault_eq (cs : List Char) :
    columnDefault cs = ((keyword "DEFAULT" cs).bind blanks).bind defaultText := by
  rw [columnDefault]
  simp only [Option.bind_eq_bind, Option.bind_assoc]

theorem columnDefault_eq_some_iff {cs found : List Char} : columnDefault cs = some found ↔
    ∃ lead text, IsLead "DEFAULT" lead ∧ cs = lead ++ text ∧ Flush text ∧
      defaultText text = some found := by
  rw [columnDefault_eq, Option.bind_eq_some_iff]
  constructor
  · rintro ⟨text, hlead, hfound⟩
    obtain ⟨lead, hkey, rfl, hflush⟩ := keyword_blanks_eq_some_iff.mp hlead
    exact ⟨lead, text, hkey, rfl, hflush, hfound⟩
  · rintro ⟨lead, text, hkey, rfl, hflush, hfound⟩
    exact ⟨text, keyword_blanks_eq_some_iff.mpr ⟨lead, hkey, rfl, hflush⟩, hfound⟩

/-- The text starts as a value does. -/
def StartsValue (text : List Char) : Prop :=
  ∃ c more, text = c :: more ∧ isBlank c = false ∧ c ≠ ','

/-- A text that starts a value starts one with more behind it. -/
theorem StartsValue.append {text : List Char} (h : StartsValue text) (more : List Char) :
    StartsValue (text ++ more) := by
  obtain ⟨c, rest, rfl, hc, hcomma⟩ := h
  exact ⟨c, rest ++ more, rfl, hc, hcomma⟩

/-- A default is read as soon as its value starts. -/
theorem columnDefault_of_startsValue {lead text : List Char} (hlead : IsLead "DEFAULT" lead)
    (h : StartsValue text) :
    columnDefault (lead ++ text) = defaultText text ∧ columnDefault (lead ++ text) ≠ none := by
  obtain ⟨c, more, rfl, hc, hcomma⟩ := h
  have hkey : (keyword "DEFAULT" (lead ++ c :: more)).bind blanks = some (c :: more) :=
    keyword_blanks_eq_some_iff.mpr ⟨lead, hlead, rfl, flush_cons.mpr hc⟩
  have hread : columnDefault (lead ++ c :: more) = defaultText (c :: more) := by
    rw [columnDefault_eq, hkey, Option.bind_some]
  refine ⟨hread, ?_⟩
  rw [hread, Ne, defaultText_eq_none_iff]
  intro h
  rcases h c rfl with hblank | heq
  · rw [hc] at hblank
    cases hblank
  · exact hcomma heq

/-- Where a word cannot be read as a default, nothing else can that stands in its place. -/
theorem columnDefault_eq_none_of_word {front : List Char} (hne : front ≠ [])
    (hend : isBoundary front.getLast? = true) {c : Char} (hc : isWordChar c = true)
    {more : List Char} (h : columnDefault (front ++ c :: more) = none) (other : List Char) :
    columnDefault (front ++ other) = none := by
  have hvalue : StartsValue (c :: more) :=
    ⟨c, more, rfl, isBlank_of_isWordChar hc, ne_of_isWordChar hc (by decide)⟩
  have hword : ¬ ∀ d ∈ front, isWordChar d = true := by
    intro hchars
    rw [isBoundary_getLast?_of_isWordChar hne hchars] at hend
    cases hend
  by_contra hsome
  obtain ⟨found, hfound⟩ := Option.ne_none_iff_exists'.mp hsome
  obtain ⟨lead, text, hlead, hsplit, hflush, hread⟩ := columnDefault_eq_some_iff.mp hfound
  rcases List.append_eq_append_iff.mp hsplit with ⟨x, hx, -⟩ | ⟨x, rfl, rfl⟩
  · -- The front stops in the keyword, or in the blanks behind it, where the word would be read.
    obtain ⟨letters, gap, hletters, -, hgap, rfl⟩ := hlead
    have hchars := hletters.isWordChar (by decide)
    rcases List.append_eq_append_iff.mp hx with ⟨y, rfl, rfl⟩ | ⟨y, rfl, -⟩
    · have hy : y ≠ [] := by
        rintro rfl
        exact hword (by simpa using hchars)
      have hlead : IsLead "DEFAULT" (letters ++ y) :=
        ⟨letters, y, hletters, hy, fun d hd => hgap d (List.mem_append_left _ hd), rfl⟩
      exact (columnDefault_of_startsValue hlead hvalue).2 h
    · exact hword fun d hd => hchars d (List.mem_append_left _ hd)
  · cases x with
    | nil =>
        rw [List.append_nil] at h
        exact (columnDefault_of_startsValue hlead hvalue).2 h
    | cons d x =>
        have hd : d ≠ ',' := by
          rintro rfl
          rw [defaultText_eq_none_iff.mpr (by simp)] at hread
          cases hread
        rw [List.append_assoc] at h
        exact (columnDefault_of_startsValue hlead ⟨d, _, rfl, flush_cons.mp hflush, hd⟩).2 h

/-- A default is found at the first place where there is one. -/
theorem searchFirst_columnDefault_of_first {cs front lead text : List Char}
    (hlead : IsLead "DEFAULT" lead) (hsplit : cs = front ++ (lead ++ text))
    (hboundary : isBoundary front.getLast? = true) (htext : StartsValue text)
    (hfirst : ∀ u w, cs = u ++ w → u.length < front.length → isBoundary u.getLast? = true →
      columnDefault w = none) :
    searchFirst columnDefault cs = defaultText text := by
  obtain ⟨hread, hsome⟩ := columnDefault_of_startsValue hlead htext
  obtain ⟨found, hfound⟩ := Option.ne_none_iff_exists'.mp hsome
  have hne : lead ++ text ≠ [] := by
    obtain ⟨c, more, rfl, -⟩ := htext
    simp
  have hsearch : search columnDefault none cs = some (front, found) := by
    rw [search_eq_some_iff]
    refine ⟨lead ++ text, hne, hsplit, by rwa [Option.or_none], hfound, ?_⟩
    intro u w hcut hlength hu
    rw [Option.or_none] at hu
    exact hfirst u w hcut hlength hu
  rw [searchFirst, hsearch, ← hread, hfound]
  rfl

namespace CommentAt

variable {rest front key body behind : List Char}

/-- A default that is read when the comment is taken out would have been read in front of it. -/
theorem columnDefault_eq_none {u x : List Char} (h : CommentAt rest (u ++ x) key body behind)
    (hx : x ≠ [])
    (hnone : columnDefault (x ++ (key ++ '\'' :: (body ++ '\'' :: behind))) = none) :
    columnDefault (x ++ behind) = none := by
  obtain ⟨c, more, rfl, hfold⟩ := h.keyword.exists_cons
  have hend : isBoundary x.getLast? = true := by
    rw [← List.getLast?_append_of_ne_nil u hx]
    exact h.boundary
  exact columnDefault_eq_none_of_word hx hend (isWordChar_of_foldsTo (.inl rfl) hfold) hnone behind

/-- Behind the comment a word may start where it may start when the comment is taken out. -/
theorem isBoundary_behind (h : CommentAt rest front key body behind) (x : List Char) :
    isBoundary (front ++ (key ++ '\'' :: (body ++ '\'' :: x))).getLast?
      = isBoundary (front ++ x).getLast? := by
  rcases List.eq_nil_or_concat x with rfl | ⟨x, c, rfl⟩
  · have htext : front ++ (key ++ '\'' :: (body ++ ['\'']))
        = (front ++ (key ++ '\'' :: body)) ++ ['\''] := by simp
    rw [htext, List.getLast?_concat, List.append_nil, h.boundary]
    rfl
  · have htext : front ++ (key ++ '\'' :: (body ++ '\'' :: (x ++ [c])))
        = (front ++ (key ++ '\'' :: (body ++ '\'' :: x))) ++ [c] := by simp
    rw [List.concat_eq_append, htext, ← List.append_assoc front x, List.getLast?_concat,
      List.getLast?_concat]

/-- No default comes in front of the place `n` when the comment is taken out. -/
theorem no_default_in_front (h : CommentAt rest front key body behind) {n : Nat}
    (hfirst : ∀ u w, rest = u ++ w → u.length < n → isBoundary u.getLast? = true →
      columnDefault w = none)
    {u w : List Char} (hcut : front ++ behind = u ++ w) (hu : isBoundary u.getLast? = true)
    (hfront : u.length < front.length → u.length < n)
    (hbehind : ∀ x, u = front ++ x →
      (front ++ (key ++ '\'' :: (body ++ '\'' :: x))).length < n) :
    columnDefault w = none := by
  have hlater : ∀ x, u = front ++ x → behind = x ++ w → columnDefault w = none := by
    rintro x rfl rfl
    refine hfirst _ w ?_ (hbehind x rfl) ?_
    · rw [h.split]
      simp
    · rw [h.isBoundary_behind]
      exact hu
  rcases List.append_eq_append_iff.mp hcut with ⟨x, hx, hw⟩ | ⟨x, rfl, rfl⟩
  · exact hlater x hx hw
  · by_cases hnil : x = []
    · subst hnil
      exact hlater [] (by simp) rfl
    · have hlength : u.length < n := hfront (by
        rw [List.length_append]
        have := List.length_pos_of_ne_nil hnil
        omega)
      refine h.columnDefault_eq_none hnil (hfirst u _ ?_ hlength hu)
      rw [h.split, List.append_assoc]

end CommentAt

/-- The default that is found when the comment stands behind it. -/
theorem searchFirst_default_of_behind {rest front lead value behind mid key body after : List Char}
    (h : DefaultAt rest front lead value behind) (hvalue : StartsValue value)
    (hat : CommentAt rest (front ++ (lead ++ value) ++ mid) key body after) :
    searchFirst columnDefault (front ++ (lead ++ value) ++ mid ++ after)
        = defaultText (value ++ (mid ++ after)) ∧
      behind = mid ++ (key ++ '\'' :: (body ++ '\'' :: after)) := by
  constructor
  · have hsplit : front ++ (lead ++ value) ++ mid ++ after
        = front ++ (lead ++ (value ++ (mid ++ after))) := by simp
    refine searchFirst_columnDefault_of_first h.keyword hsplit h.boundary (hvalue.append _) ?_
    intro u w hcut hu hend
    refine hat.no_default_in_front h.first hcut hend (fun _ => hu) ?_
    rintro x rfl
    simp only [List.length_append] at hu
    omega
  · have hrest := h.split.symm.trans hat.split
    simpa using hrest

/-- The default that is found when the comment stands in front of it. -/
theorem searchFirst_default_of_in_front
    {rest front lead value behind before mid key body : List Char}
    (h : DefaultAt rest front lead value behind) (hvalue : StartsValue value)
    (hat : CommentAt rest before key body (mid ++ (lead ++ (value ++ behind)))) :
    searchFirst columnDefault (before ++ (mid ++ (lead ++ (value ++ behind))))
      = defaultText (value ++ behind) := by
  have hfront : front = before ++ (key ++ '\'' :: (body ++ '\'' :: mid)) := by
    have hrest : front ++ (lead ++ (value ++ behind))
        = before ++ (key ++ '\'' :: (body ++ '\'' :: mid)) ++ (lead ++ (value ++ behind)) := by
      rw [← h.split, hat.split]
      simp
    exact List.append_cancel_right hrest
  have hboundary : isBoundary (before ++ mid).getLast? = true := by
    rw [← hat.isBoundary_behind, ← hfront]
    exact h.boundary
  have hsplit : before ++ (mid ++ (lead ++ (value ++ behind)))
      = (before ++ mid) ++ (lead ++ (value ++ behind)) := by simp
  refine searchFirst_columnDefault_of_first h.keyword hsplit hboundary (hvalue.append _) ?_
  intro u w hcut hu hend
  refine hat.no_default_in_front h.first hcut hend ?_ ?_
  · intro hshort
    rw [hfront, List.length_append]
    omega
  · rintro x rfl
    rw [hfront]
    simp only [List.length_append, List.length_cons] at hu ⊢
    omega

/-- **The default that is found** is the one that stands in the text, with what follows it when the
comment is taken out. -/
theorem searchFirst_default {rest front lead value behind : List Char}
    (h : DefaultAt rest front lead value behind) (hvalue : StartsValue value) :
    ∃ tail, searchFirst columnDefault (attributes rest) = defaultText (value ++ tail) ∧
      (behind.head? ≠ some '\'' → Closes tail) := by
  cases hsearch : search columnComment none rest with
  | none =>
      rw [attributes_eq_self hsearch]
      exact ⟨behind, searchFirst_columnDefault_of_first h.keyword h.split h.boundary
        (hvalue.append _) h.first, closes_of_head?⟩
  | some found =>
      obtain ⟨before, body, after⟩ := found
      obtain ⟨hattributes, key, hat⟩ := commentAt_of_search hsearch
      rw [hattributes]
      rcases h.apart _ hsearch with ⟨mid, rfl⟩ | ⟨mid, rfl⟩
      · obtain ⟨hfound, hbehind⟩ := searchFirst_default_of_behind h hvalue hat
        refine ⟨mid ++ after, hfound, ?_⟩
        intro hquote
        cases mid with
        | nil => exact hat.closes
        | cons c mid =>
            rw [hbehind] at hquote
            exact closes_of_head? hquote
      · exact ⟨behind, searchFirst_default_of_in_front h hvalue hat, closes_of_head?⟩

/-! ## Columns -/

/-- **What is read as a whole** of a column.  The list behind the word of its type, up to the
matching parenthesis, is in the type that is recorded (with its runs of blanks as single spaces)
exactly when it holds no closing parenthesis.  The value of its first `DEFAULT`, with the comment
apart from it, is recorded as a whole if it is a literal in single quotes; if it is a literal in
double quotes, exactly when each quote in it is escaped by a backslash; and if it stands in
parentheses, up to the matching one, exactly when it holds no closing parenthesis. -/
theorem parseColumn_whole {part : List Char} {column : Column}
    (h : parseColumn part = some column) :
    ∃ name type rest, columnHead part = some (name, type, rest) ∧
    (∀ w gap opened list more, type ++ rest = w ++ (gap ++ '(' :: opened) → w ≠ [] →
      (∀ c ∈ w, isWordChar c = true) → (∀ c ∈ gap, isBlank c = true) →
      closingParen opened = some (list, more) →
      (join [' '] (words (w ++ (gap ++ '(' :: (list ++ [')'])))) <+: column.type.toList ↔
        ')' ∉ list)) ∧
    (∀ front lead value behind, DefaultAt rest front lead value behind →
      (∀ body, value = '\'' :: (body ++ ['\'']) → Escaped '\'' body → behind.head? ≠ some '\'' →
        column.default = some (String.ofList value)) ∧
      (∀ body, value = '"' :: (body ++ ['"']) → Escaped '"' body →
        (column.default = some (String.ofList value) ↔ Enclosed '"' body)) ∧
      (∀ opened inner, value ++ behind = '(' :: opened →
        closingParen opened = some (inner, behind) →
        (column.default = some (String.ofList value) ↔ ')' ∉ inner))) := by
  obtain ⟨⟨name, type, rest⟩, hhead, rfl⟩ := columnHead_of_parseColumn h
  refine ⟨name, type, rest, hhead, ?_, ?_⟩
  · intro w gap opened list more htype hw hword hgap hclose
    rw [closingParen_split hclose] at htype
    have htext : (columnOf (name, type, rest)).type.toList = join [' '] (words type) := by
      simp [columnOf]
    rw [htext]
    exact type_whole_iff hw hword hgap htype (columnHead_typed hhead)
  · intro front lead value behind hat
    -- What is recorded is what is found, and found it is with some text behind it.
    have hdefault : StartsValue value → ∃ tail, (behind.head? ≠ some '\'' → Closes tail) ∧
        ((columnOf (name, type, rest)).default = some (String.ofList value) ↔
          defaultText (value ++ tail) = some value) := by
      intro hvalue
      obtain ⟨tail, hfound, hcloses⟩ := searchFirst_default hat hvalue
      refine ⟨tail, hcloses, ?_⟩
      simp only [columnOf, hfound, Option.map_eq_some_iff, String.ofList_inj]
      simp
    refine ⟨?_, ?_, ?_⟩
    · rintro body rfl hbody hquote
      obtain ⟨tail, hcloses, hiff⟩ := hdefault ⟨'\'', _, rfl, by decide, by decide⟩
      rw [hiff]
      simpa using defaultText_single hbody (hcloses hquote)
    · rintro body rfl hbody
      obtain ⟨tail, -, hiff⟩ := hdefault ⟨'"', _, rfl, by decide, by decide⟩
      rw [hiff, ← defaultText_double_iff hbody tail]
      simp
    · intro opened inner hopened hclose
      have hvalue : value = '(' :: (inner ++ [')']) := by
        rw [closingParen_split hclose] at hopened
        have hwhole : value ++ behind = '(' :: (inner ++ [')']) ++ behind := by
          rw [hopened]
          simp
        exact List.append_cancel_right hwhole
      subst hvalue
      obtain ⟨tail, -, hiff⟩ := hdefault ⟨'(', _, rfl, by decide, by decide⟩
      rw [hiff, ← defaultText_list_iff inner tail]
      simp

/-- A column whose list and default hold quotes and a comma, with the comment between them. -/
theorem parseColumn_whole_enum :
    let part := "x enum('a','b') COMMENT 'c' DEFAULT 'it''s, b' NOT NULL".toList
    ∃ column, parseColumn part = some column ∧
      "enum('a','b')".toList <+: column.type.toList ∧ column.default = some "'it''s, b'" := by
  intro part
  obtain ⟨column, h⟩ := Option.isSome_iff_exists.mp (show (parseColumn part).isSome by decide)
  obtain ⟨name, type, rest, hhead, htype, hdefault⟩ := parseColumn_whole h
  have hknown : columnHead part = some (['x'], "enum('a','b')".toList,
      " COMMENT 'c' DEFAULT 'it''s, b' NOT NULL".toList) := by decide
  rw [hhead] at hknown
  obtain ⟨rfl, htail⟩ := Prod.mk.inj (Option.some.inj hknown)
  obtain ⟨rfl, rfl⟩ := Prod.mk.inj htail
  refine ⟨column, h, ?_, ?_⟩
  · have hiff := htype "enum".toList [] "'a','b') COMMENT 'c' DEFAULT 'it''s, b' NOT NULL".toList
      "'a','b'".toList " COMMENT 'c' DEFAULT 'it''s, b' NOT NULL".toList rfl (by decide)
      (by decide) (by decide) (by decide)
    exact hiff.mpr (by decide)
  · have hat : DefaultAt " COMMENT 'c' DEFAULT 'it''s, b' NOT NULL".toList " COMMENT 'c' ".toList
        "DEFAULT ".toList "'it''s, b'".toList " NOT NULL".toList := by
      refine ⟨⟨"DEFAULT".toList, [' '], by decide, by decide, by decide, by decide⟩, by decide,
        by decide, forall_cut_iff.mp (by decide), ?_⟩
      have hcomment : search columnComment none " COMMENT 'c' DEFAULT 'it''s, b' NOT NULL".toList
          = some ([' '], ['c'], " DEFAULT 'it''s, b' NOT NULL".toList) := by decide
      rw [hcomment]
      rintro found ⟨⟩
      exact .inr (by decide)
    exact (hdefault _ _ _ _ hat).1 "it''s, b".toList rfl (by decide) (by decide)

/-- Lists and defaults that are cut short, in parts as they come from a body. -/
theorem parseColumn_whole_cut :
    let read (part : String) := (parseColumn part.toList).map fun c => (c.type, c.default)
    (∀ part ∈ ["x enum('a)','b')", "x int DEFAULT (now())", "x text DEFAULT \"a\"\"b\"",
        "x text COMMENT \"DEFAULT 1\" DEFAULT 'y'", "x text DEFAULT 'a COMMENT ''b'' c'"],
      splitTopLevel part.toList = [part.toList]) ∧
    read "x enum('a)','b')" = some ("enum('a)", none) ∧
    read "x int DEFAULT (now())" = some ("int", some "(now()") ∧
    read "x text DEFAULT \"a\"\"b\"" = some ("text", some "\"a\"") ∧
    read "x text COMMENT \"DEFAULT 1\" DEFAULT 'y'" = some ("text", some "1\"") ∧
    read "x text DEFAULT 'a COMMENT ''b'' c'" = some ("text", some "'a b'' c'") := by
  decide +kernel

end CodeIndex.Sql
