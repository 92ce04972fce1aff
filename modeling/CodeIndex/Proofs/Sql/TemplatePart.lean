import CodeIndex.Proofs.Sql.Atoms
import CodeIndex.Proofs.Sql.TemplateBody

/-!
# Parts with holes

A key and the name of a column are read from what stands in front of the first literal of a part,
with two exceptions.  A double quote is also a quote of names, so no literal may stand where a
name is read.  And the list of a key runs to the last parenthesis of the part, so once it is open
none may follow.

* `Settled` : no name is being read at the end of a text.
* `parseKey_append_quote`, `parseColumn_append_quote` : keys and columns in front of a quote.
-/

namespace CodeIndex.Sql

open Text

/-! ## Where names and lists stand -/

/-- Is the name of a constraint read to the end of the text? -/
def awaitsConstraint (cs : List Char) : Bool :=
  (((keyword "CONSTRAINT" cs).bind blanks).map fun name => name.all (!isBlank ·)).getD false

/-- Is a name, with its first quote, read to the end of the text? -/
def awaitsName (cs : List Char) : Bool := (optionalMark ['\x60', '"'] (trimStart cs)).all isWordChar

/-- Where the name of a key may start behind its kind. -/
def optionalSpots (cs : List Char) : List (List Char) :=
  ((blanks cs).bind (anyKeyword ["KEY", "INDEX"])).toList ++ [cs]

/-- Where the name of a key may start. -/
def nameSpots (cs : List Char) : List (List Char) :=
  (keyword "UNIQUE" (afterConstraint cs)).toList.flatMap optionalSpots ++
    ((keyword "FULLTEXT" cs).toList.flatMap optionalSpots ++
      ((anyKeyword ["KEY", "INDEX"] cs).bind blanks).toList)

/-- A name in optional quotes and the rest. -/
def quotedName (cs : List Char) : Option (List Char × List Char) :=
  (word (optionalMark ['\x60', '"'] cs)).map fun p => (p.1, optionalMark ['\x60', '"'] p.2)

/-- The name of a key, if there is one, and the text where its list is to start. -/
def keyName (cs : List Char) : Option (List Char) × List Char :=
  match quotedName (trimStart cs) with
  | some (name, rest) => (some name, trimStart rest)
  | none => (none, trimStart cs)

/-- Where the list of a primary key is to start. -/
def primarySpot (cs : List Char) : Option (List Char) :=
  (((keyword "PRIMARY" (afterConstraint cs)).bind blanks).bind (keyword "KEY")).map fun rest =>
    (afterUsing (trimStart rest)).getD (trimStart rest)

/-- Where the list of a key may start. -/
def listSpots (cs : List Char) : List (List Char) :=
  (primarySpot cs).toList ++ (nameSpots cs).map fun spot => (keyName spot).2

/-- Has the list of a key been opened? -/
def opensList (cs : List Char) : Bool := (listSpots cs).any fun spot => spot.head? == some '('

/-- The quote `q` behind the text is no part of a name. -/
structure Settled (q : Char) (cs : List Char) : Prop where
  constraint : awaitsConstraint cs = false
  name : q = '"' → ∀ spot ∈ cs :: nameSpots cs, awaitsName spot = false

instance (q : Char) (cs : List Char) : Decidable (Settled q cs) :=
  decidable_of_iff (awaitsConstraint cs = false ∧
      (q = '"' → ∀ spot ∈ cs :: nameSpots cs, awaitsName spot = false))
    ⟨fun ⟨constraint, name⟩ => ⟨constraint, name⟩, fun h => ⟨h.constraint, h.name⟩⟩

section

variable {q : Char} {rest : List Char}

/-! ## Pieces in front of a quote -/

/-- Keywords are read in front of a mark. -/
theorem anyKeyword_carries {words : List String} (hwords : ∀ word ∈ words, IsKeyword word)
    (hq : isWordChar q = false) : Carries (· ++ q :: rest) (anyKeyword words) (· ++ q :: rest) := by
  induction words with
  | nil => intro cs; rfl
  | cons word more ih =>
      have hmore := ih fun other hother => hwords other (List.mem_cons_of_mem _ hother)
      intro cs
      have hread := keyword_carries (hwords word List.mem_cons_self) hq rest cs
      have hothers := hmore cs
      simp only [anyKeyword, List.findSome?_cons] at hothers ⊢
      rw [hread]
      cases keyword word cs with
      | none => exact hothers
      | some left => rfl

/-- A word is read in front of a mark. -/
theorem word_carries (hq : isWordChar q = false) (rest : List Char) :
    Carries (· ++ q :: rest) word (Prod.map id (· ++ q :: rest)) := by
  intro cs
  simp only [word, takeWhile_append_cons hq, dropWhile_append_cons hq]
  cases cs.takeWhile isWordChar <;> rfl

/-- Text without the separator goes to the last piece. -/
theorem splitLast?_append {sep : Char} {v : List Char} (hv : sep ∉ v) (u : List Char) :
    splitLast? sep (u ++ v) = (splitLast? sep u).map fun p => (p.1, p.2 ++ v) := by
  have honce : ∀ w : List Char, sep ∉ w → ∀ t, splitOnce? sep (w ++ t)
      = (splitOnce? sep t).map (withFront w) := by
    intro w hw t
    induction w with
    | nil => cases h : splitOnce? sep t <;> simp [withFront, h]
    | cons c w ih =>
        rw [List.mem_cons, not_or] at hw
        rw [List.cons_append, splitOnce?, if_neg (Ne.symm hw.1), ih hw.2, Option.map_map]
        rfl
  rw [splitLast?, splitLast?, List.reverse_append, honce _ (by simpa using hv), Option.map_map,
    Option.map_map]
  congr 1
  funext p
  simp [withFront]

/-- The list of a key is closed in front of the quote, or not at all. -/
theorem parenBody_append_quote (hq : IsMark q) {cs : List Char}
    (hclose : cs.head? = some '(' → ')' ∉ rest) :
    parenBody (cs ++ q :: rest) = parenBody cs := by
  cases cs with
  | nil => simp [parenBody, symbol, hq.opens]
  | cons c cs =>
      by_cases hc : c = '('
      · have hout : ')' ∉ q :: rest := by
          simp [Ne.symm hq.closes, hclose (by simp [hc])]
        simp only [parenBody, List.cons_append, symbol, if_pos hc, Option.bind_eq_bind,
          Option.bind_some]
        rw [splitLast?_append hout]
        cases splitLast? ')' cs <;> rfl
      · simp [parenBody, symbol, hc]

/-- The choice of an index type is read in front of a mark. -/
theorem afterUsing_carries (hq : IsMark q) :
    Carries (· ++ q :: rest) afterUsing (· ++ q :: rest) :=
  ((keyword_carries (by decide) hq.word rest).bind (blanks_carries hq.blank rest)).bind
    ((word_carries hq.word rest).map fun p => trimStart_append_stop hq.blank p.2 rest)

/-- The name of a constraint is read in front of a quote. -/
theorem afterConstraint_append_quote (hq : IsMark q) {cs : List Char}
    (h : awaitsConstraint cs = false) :
    afterConstraint (cs ++ q :: rest) = afterConstraint cs ++ q :: rest := by
  have hname : ((keyword "CONSTRAINT" (cs ++ q :: rest)).bind blanks)
      = ((keyword "CONSTRAINT" cs).bind blanks).map (· ++ q :: rest) :=
    ((keyword_carries (by decide) hq.word rest).bind (blanks_carries hq.blank rest)) cs
  simp only [afterConstraint, Option.bind_eq_bind, ← Option.bind_assoc, hname]
  rw [awaitsConstraint] at h
  cases hread : (keyword "CONSTRAINT" cs).bind blanks with
  | none => rfl
  | some name =>
      rw [hread, Option.map_some, Option.getD_some] at h
      -- a blank ends the name in front of the quote
      have hrun : (name.dropWhile (!isBlank ·)).isEmpty = false := by
        rw [List.isEmpty_eq_false_iff, ne_eq, List.dropWhile_eq_nil_iff]
        intro hall
        simp [List.all_eq_true.mpr hall] at h
      simp only [Option.map_some, Option.bind_some]
      rw [List.dropWhile_append, hrun]
      simp only [Bool.false_eq_true, if_false, List.length_append, Nat.add_right_cancel_iff]
      split
      · rfl
      · rw [blanks_carries hq.blank rest]
        cases blanks (name.dropWhile (!isBlank ·)) <;> rfl

/-! ## Keys -/

/-- What ends a word is no part of the name in front of it, unless it is the quote of a name. -/
theorem quotedName_append_stop (hq : isWordChar q = false) {cs : List Char}
    (h : q ∈ ['\x60', '"'] → (optionalMark ['\x60', '"'] cs).all isWordChar = false) :
    quotedName (cs ++ q :: rest) = (quotedName cs).map (Prod.map id (· ++ q :: rest)) := by
  have hopen : cs = [] → q ∉ ['\x60', '"'] := by
    intro hnil hmem
    have hall := h hmem
    rw [hnil] at hall
    cases hall
  have hword := word_carries hq rest (optionalMark ['\x60', '"'] cs)
  rw [quotedName, quotedName, optionalMark_append_stop hopen, hword]
  cases hread : word (optionalMark ['\x60', '"'] cs) with
  | none => rfl
  | some p =>
      obtain ⟨name, after⟩ := p
      have hclose : after = [] → q ∉ ['\x60', '"'] := by
        intro hnil hmem
        obtain ⟨hsplit, -, hname⟩ := word_split hread
        have hall := h hmem
        rw [hsplit, hnil, List.append_nil, List.all_eq_true.mpr hname] at hall
        cases hall
      simp only [Option.map_some, Prod.map_apply, id_eq]
      rw [optionalMark_append_stop hclose]

/-- The one quote of literals that also quotes names is the double one. -/
theorem eq_double_of_mem_marks (hquote : q = '\'' ∨ q = '"') (h : q ∈ ['\x60', '"']) : q = '"' := by
  rcases hquote with rfl | rfl
  · exact absurd h (by decide)
  · rfl

/-- A quote behind a text is no part of the name the text starts with. -/
theorem quotedName_append_quote (hquote : q = '\'' ∨ q = '"') {cs : List Char}
    (h : q = '"' → (optionalMark ['\x60', '"'] cs).all isWordChar = false) :
    quotedName (cs ++ q :: rest) = (quotedName cs).map (Prod.map id (· ++ q :: rest)) :=
  quotedName_append_stop (isMark_of_quote hquote).word
    fun hmem => h (eq_double_of_mem_marks hquote hmem)

/-- A list in parentheses does not start with a name. -/
theorem parenBody_of_quotedName {cs : List Char} {p : List Char × List Char}
    (h : quotedName cs = some p) : parenBody cs = none := by
  cases cs with
  | nil => rfl
  | cons c cs =>
      by_cases hc : c = '('
      · have hword : isWordChar '(' = false := by decide
        simp [hc, quotedName, optionalMark, word, hword] at h
      · simp [parenBody, symbol, hc]

/-- The rest of a key is its name and its list. -/
theorem keyTail_eq (cs : List Char) :
    keyTail cs = (parenBody (keyName cs).2).map fun body => ((keyName cs).1, body) := by
  have hnone := @parenBody_of_quotedName (trimStart cs)
  simp only [keyTail, keyName]
  cases hword : word (optionalMark ['\x60', '"'] (trimStart cs)) with
  | none =>
      simp only [quotedName, hword]
      rfl
  | some p =>
      simp only [quotedName, hword, Option.map_some, Option.some.injEq] at hnone ⊢
      simp only [Option.bind_eq_bind, Option.bind_some]
      rw [hnone rfl, Option.map_none, Option.or_none]
      cases parenBody (trimStart (optionalMark ['\x60', '"'] p.2)) <;> rfl

/-- The name of a key is read in front of a mark. -/
theorem keyName_append_stop (hq : isWordChar q = false) (hblank : isBlank q = false)
    {cs : List Char} (h : q ∈ ['\x60', '"'] → awaitsName cs = false) :
    keyName (cs ++ q :: rest) = Prod.map id (· ++ q :: rest) (keyName cs) := by
  rw [keyName, keyName, trimStart_append_stop hblank, quotedName_append_stop hq h]
  cases quotedName (trimStart cs) with
  | none => rfl
  | some p =>
      simp only [Option.map_some, Prod.map_fst, Prod.map_snd, id_eq]
      rw [trimStart_append_stop hblank]
      rfl

/-- The name of a key is read in front of a quote. -/
theorem keyName_append_quote (hquote : q = '\'' ∨ q = '"') {cs : List Char}
    (h : q = '"' → awaitsName cs = false) :
    keyName (cs ++ q :: rest) = Prod.map id (· ++ q :: rest) (keyName cs) :=
  keyName_append_stop (isMark_of_quote hquote).word (isMark_of_quote hquote).blank
    fun hmem => h (eq_double_of_mem_marks hquote hmem)

/-- The quote `q` and the text behind it change nothing about a key whose name starts at the
spot: no name is read there, and no list is open that the text could close. -/
structure Unmoved (q : Char) (rest spot : List Char) : Prop where
  name : q = '"' → awaitsName spot = false
  list : (keyName spot).2.head? = some '(' → ')' ∉ rest

/-- A literal behind the rest of a key does not change it. -/
theorem keyTail_append_quote (hquote : q = '\'' ∨ q = '"') {cs : List Char}
    (h : Unmoved q rest cs) : keyTail (cs ++ q :: rest) = keyTail cs := by
  rw [keyTail_eq, keyTail_eq, keyName_append_quote hquote h.name]
  simp only [Prod.map_fst, Prod.map_snd, id_eq]
  rw [parenBody_append_quote (isMark_of_quote hquote) h.list]

theorem optionalKeyTail_append_quote (hquote : q = '\'' ∨ q = '"') {cs : List Char}
    (h : ∀ spot ∈ optionalSpots cs, Unmoved q rest spot) :
    optionalKeyTail (cs ++ q :: rest) = optionalKeyTail cs := by
  have hq := isMark_of_quote hquote
  have hkind : ((blanks (cs ++ q :: rest)).bind (anyKeyword ["KEY", "INDEX"]))
      = ((blanks cs).bind (anyKeyword ["KEY", "INDEX"])).map (· ++ q :: rest) :=
    ((blanks_carries hq.blank rest).bind (anyKeyword_carries (by decide) hq.word)) cs
  have htail := keyTail_append_quote hquote (h cs (by simp [optionalSpots]))
  rw [optionalKeyTail, optionalKeyTail, hkind, htail]
  cases hread : (blanks cs).bind (anyKeyword ["KEY", "INDEX"]) with
  | none => rfl
  | some left =>
      simp only [Option.map_some, Option.bind_some]
      rw [keyTail_append_quote hquote (h left (by simp [optionalSpots, hread]))]

/-- A literal behind a unique key does not change it. -/
theorem uniqueKey_append_quote (hquote : q = '\'' ∨ q = '"') {cs : List Char}
    (hconstraint : awaitsConstraint cs = false)
    (h : ∀ spot ∈ nameSpots cs, Unmoved q rest spot) :
    uniqueKey (cs ++ q :: rest) = uniqueKey cs := by
  have hq := isMark_of_quote hquote
  rw [uniqueKey, uniqueKey, afterConstraint_append_quote hq hconstraint,
    keyword_carries (by decide) hq.word rest]
  cases hread : keyword "UNIQUE" (afterConstraint cs) with
  | none => rfl
  | some left =>
      simp only [Option.map_some, Option.bind_eq_bind, Option.bind_some]
      rw [optionalKeyTail_append_quote hquote]
      intro spot hspot
      exact h spot (by simp [nameSpots, hread, hspot])

/-- A literal behind a fulltext key does not change it. -/
theorem fulltextKey_append_quote (hquote : q = '\'' ∨ q = '"') {cs : List Char}
    (h : ∀ spot ∈ nameSpots cs, Unmoved q rest spot) :
    fulltextKey (cs ++ q :: rest) = fulltextKey cs := by
  have hq := isMark_of_quote hquote
  rw [fulltextKey, fulltextKey, keyword_carries (by decide) hq.word rest]
  cases hread : keyword "FULLTEXT" cs with
  | none => rfl
  | some left =>
      simp only [Option.map_some, Option.bind_eq_bind, Option.bind_some]
      rw [optionalKeyTail_append_quote hquote]
      intro spot hspot
      exact h spot (by simp [nameSpots, hread, hspot])

/-- A literal behind a plain key does not change it. -/
theorem plainKey_append_quote (hquote : q = '\'' ∨ q = '"') {cs : List Char}
    (h : ∀ spot ∈ nameSpots cs, Unmoved q rest spot) :
    plainKey (cs ++ q :: rest) = plainKey cs := by
  have hq := isMark_of_quote hquote
  have hkind : ((anyKeyword ["KEY", "INDEX"] (cs ++ q :: rest)).bind blanks)
      = ((anyKeyword ["KEY", "INDEX"] cs).bind blanks).map (· ++ q :: rest) :=
    ((anyKeyword_carries (by decide) hq.word).bind (blanks_carries hq.blank rest)) cs
  simp only [plainKey, Option.bind_eq_bind, ← Option.bind_assoc, hkind]
  cases hread : (anyKeyword ["KEY", "INDEX"] cs).bind blanks with
  | none => rfl
  | some left =>
      simp only [Option.map_some, Option.bind_some]
      rw [keyTail_append_quote hquote (h left (by simp [nameSpots, hread]))]

/-- A literal behind a primary key does not change it. -/
theorem primaryKey_append_quote (hq : IsMark q) {cs : List Char}
    (hconstraint : awaitsConstraint cs = false)
    (hlist : ∀ spot, primarySpot cs = some spot → spot.head? = some '(' → ')' ∉ rest) :
    primaryKey (cs ++ q :: rest) = primaryKey cs := by
  have hhead : ((keyword "PRIMARY" (afterConstraint cs ++ q :: rest)).bind blanks).bind
      (keyword "KEY") = (((keyword "PRIMARY" (afterConstraint cs)).bind blanks).bind
        (keyword "KEY")).map (· ++ q :: rest) :=
    (((keyword_carries (by decide) hq.word rest).bind (blanks_carries hq.blank rest)).bind
      (keyword_carries (by decide) hq.word rest)) (afterConstraint cs)
  rw [primaryKey_eq, primaryKey_eq, afterConstraint_append_quote hq hconstraint, hhead]
  rw [primarySpot] at hlist
  cases hread : ((keyword "PRIMARY" (afterConstraint cs)).bind blanks).bind (keyword "KEY") with
  | none => rfl
  | some left =>
      simp only [Option.map_some, Option.bind_some]
      rw [trimStart_append_stop hq.blank, (afterUsing_carries hq).getD, parenBody_append_quote hq]
      exact hlist _ (by rw [hread]; rfl)

/-- **A key is read in front of the first literal.** -/
theorem parseKey_append_quote (hquote : q = '\'' ∨ q = '"') {cs : List Char} (h : Settled q cs)
    (hlist : opensList cs = true → ')' ∉ rest) : parseKey (cs ++ q :: rest) = parseKey cs := by
  have hopened : ∀ spot ∈ listSpots cs, spot.head? = some '(' → ')' ∉ rest := by
    intro spot hspot hhead
    apply hlist
    rw [opensList, List.any_eq_true]
    exact ⟨spot, hspot, by simp [hhead]⟩
  have hspots : ∀ spot ∈ nameSpots cs, Unmoved q rest spot := by
    intro spot hspot
    constructor
    · intro hdouble
      exact h.name hdouble spot (List.mem_cons_of_mem _ hspot)
    · exact hopened _ (List.mem_append_right _ (List.mem_map_of_mem hspot))
  have hprimary : ∀ spot, primarySpot cs = some spot → spot.head? = some '(' → ')' ∉ rest := by
    intro spot hspot
    exact hopened spot (List.mem_append_left _ (by simp [hspot]))
  rw [parseKey, parseKey, primaryKey_append_quote (isMark_of_quote hquote) h.constraint hprimary,
    uniqueKey_append_quote hquote h.constraint hspots, fulltextKey_append_quote hquote hspots,
    plainKey_append_quote hquote hspots]

/-! ## Columns -/

/-- The name of a column and the text where its type is to start. -/
def columnName (cs : List Char) : Option (List Char × List Char) :=
  (quotedName cs).bind fun p => (blanks p.2).map fun typed => (p.1, typed)

/-- A column has a name if a type follows it. -/
theorem columnHead_fst (cs : List Char) : (columnHead cs).map Prod.fst
    = (columnName cs).bind fun p => (word p.2).map fun _ => p.1 := by
  rw [columnHead, columnName, quotedName]
  cases word (optionalMark ['\x60', '"'] cs) with
  | none => rfl
  | some p =>
      simp only [Option.bind_eq_bind, Option.map_some, Option.bind_some]
      cases blanks (optionalMark ['\x60', '"'] p.2) with
      | none => rfl
      | some typed =>
          simp only [Option.bind_some, Option.map_some, afterType_eq]
          cases word typed <;> rfl

/-- The name of a column, if its part is one. -/
theorem parseColumn_name (cs : List Char) : (parseColumn cs).map Column.name =
    (words cs).head?.bind fun leader => if isReservedLeader leader then none else
      ((columnName cs).bind fun p => (word p.2).map fun _ => p.1).map String.ofList := by
  rw [parseColumn_eq, ← columnHead_fst]
  cases (words cs).head? with
  | none => rfl
  | some leader =>
      simp only [Option.bind_some]
      split
      · rfl
      · rw [Option.map_map, Option.map_map]
        rfl

/-- The name of a column is read in front of a quote. -/
theorem columnName_append_quote (hquote : q = '\'' ∨ q = '"') {cs : List Char}
    (h : q = '"' → (optionalMark ['\x60', '"'] cs).all isWordChar = false) :
    columnName (cs ++ q :: rest) = (columnName cs).map (Prod.map id (· ++ q :: rest)) := by
  rw [columnName, columnName, quotedName_append_quote hquote h]
  cases quotedName cs with
  | none => rfl
  | some p =>
      have hblanks := blanks_carries (isMark_of_quote hquote).blank rest p.2
      simp only [Option.map_some, Option.bind_some, Prod.map_fst, Prod.map_snd, id_eq]
      rw [hblanks]
      cases blanks p.2 <;> rfl

/-- A column has a blank behind its name. -/
theorem columnName_eq_none {cs : List Char} (h : ∀ c ∈ cs, isBlank c = false) :
    columnName cs = none := by
  rw [columnName, Option.bind_eq_none_iff]
  intro p hp
  obtain ⟨⟨name, after⟩, hword, rfl⟩ := Option.map_eq_some_iff.mp hp
  have hafter : after <:+ optionalMark ['\x60', '"'] cs := ⟨name, (word_split hword).1.symm⟩
  have hsuffix : optionalMark ['\x60', '"'] after <:+ cs :=
    (optionalMark_suffix _ after).trans (hafter.trans (optionalMark_suffix _ cs))
  cases hrest : optionalMark ['\x60', '"'] after with
  | nil => rfl
  | cons c more =>
      have hc : isBlank c = false := h c (hsuffix.subset (by rw [hrest]; exact List.mem_cons_self))
      simp [blanks, hc]

/-- The first word of a text with a blank behind it does not depend on what follows. -/
theorem head?_words_append {cs : List Char} (hstart : trimStart cs = cs)
    (hblank : ∃ b ∈ cs, isBlank b = true) (rest : List Char) :
    (words (cs ++ rest)).head? = (words cs).head? := by
  let leader := cs.takeWhile (!isBlank ·)
  have hleader : ∀ c ∈ leader, isBlank c = false := by
    intro c hc
    simpa using List.mem_takeWhile_imp hc
  have hne : leader ≠ [] := by
    cases cs with
    | nil => simp at hblank
    | cons c cs =>
        have hc : isBlank c = false := by
          by_contra hblank
          have hlength := congrArg List.length hstart
          rw [trimStart, List.dropWhile_cons_of_pos (by simpa using hblank)] at hlength
          have := (List.dropWhile_suffix isBlank (l := cs)).length_le
          simp only [List.length_cons] at hlength
          omega
        simp [leader, hc]
  cases hrun : cs.dropWhile (!isBlank ·) with
  | nil =>
      obtain ⟨b, hb, hblank⟩ := hblank
      simpa [hblank] using List.dropWhile_eq_nil_iff.mp hrun b hb
  | cons b more =>
      have hb : isBlank b = true := by
        have hhead := List.head?_dropWhile_not (!isBlank ·) cs
        simpa [hrun] using hhead
      have hsplit : cs = leader ++ b :: more := by
        rw [← hrun]
        exact List.takeWhile_append_dropWhile.symm
      rw [hsplit, List.append_assoc, List.cons_append, words_append_blank hb,
        words_append_blank hb, words_of_not_blank hleader hne]
      rfl

/-- **The name of a column is read in front of the first literal.** -/
theorem parseColumn_append_quote (hquote : q = '\'' ∨ q = '"') {cs : List Char}
    (hstart : trimStart cs = cs) (h : q = '"' → awaitsName cs = false) :
    (parseColumn (cs ++ q :: rest)).map Column.name = (parseColumn cs).map Column.name := by
  have hname : columnName (cs ++ q :: rest) = (columnName cs).map (Prod.map id (· ++ q :: rest)) := by
    rw [awaitsName, hstart] at h
    exact columnName_append_quote hquote h
  rw [parseColumn_name, parseColumn_name, hname]
  by_cases hblank : ∃ b ∈ cs, isBlank b = true
  · rw [head?_words_append hstart hblank]
    cases columnName cs with
    | none => rfl
    | some p =>
        have hword := word_carries (isMark_of_quote hquote).word rest p.2
        simp only [Option.map_some, Option.bind_some, Prod.map_snd, Prod.map_fst, id_eq]
        rw [hword]
        cases word p.2 <;> rfl
  · have hnone : columnName cs = none := columnName_eq_none (by simpa using hblank)
    simp [hnone]

end

end CodeIndex.Sql
