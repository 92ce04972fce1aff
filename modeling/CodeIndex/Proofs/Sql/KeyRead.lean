import CodeIndex.Proofs.Sql.Atoms
import CodeIndex.Proofs.Sql.Parts

/-!
# Reading back a written key

The columns of a key are read from the end: first the order, then the size, then the quotes.
Each step takes exactly what was written last, because what was written before it cannot be
mistaken for it: an order stands behind a blank, a size ends in a parenthesis, and a name has
neither.

* `KeyPart.keyColumn_text` : a written column of a key is read as its name.
* `KeyDef.keyColumns_list` : so is the list of them.
* `KeyDef.parseKey_text` : reading a written key gives the key that it stands for.
-/

namespace CodeIndex.Sql

open Text

/-! ## The columns of a key -/

/-- The name of a column of a key as it is written. -/
def KeyPart.named (part : KeyPart) : List Char :=
  part.quoting.mark ++ (part.column.chars ++ part.quoting.mark)

/-- The quote of an identifier is a quote. -/
theorem Quoting.isIdentifierQuote_mark (quoting : Quoting) :
    ∀ c ∈ quoting.mark, isIdentifierQuote c = true := by
  cases quoting <;> decide

/-- A quote reads the same from both ends. -/
theorem Quoting.reverse_mark (quoting : Quoting) : quoting.mark.reverse = quoting.mark := by
  cases quoting <;> rfl

/-- A word character is no quote. -/
theorem isIdentifierQuote_of_isWordChar {c : Char} (h : isWordChar c = true) :
    isIdentifierQuote c = false := by
  have hne : ∀ d, isWordChar d = false → c ≠ d := fun d hd => ne_of_isWordChar h hd
  simp [isIdentifierQuote, hne '\x60' (by decide), hne '"' (by decide), hne '\'' (by decide)]

/-- A quote is no blank. -/
theorem isBlank_of_isIdentifierQuote {c : Char} (h : isIdentifierQuote c = true) :
    isBlank c = false := by
  simp only [isIdentifierQuote, Bool.or_eq_true, beq_iff_eq] at h
  rcases h with (rfl | rfl) | rfl <;> decide

/-- A written name has no blanks. -/
theorem KeyPart.named_not_blank (part : KeyPart) : ∀ c ∈ part.named, isBlank c = false := by
  intro c hc
  simp only [KeyPart.named, List.mem_append] at hc
  rcases hc with hmark | hname | hmark
  · exact isBlank_of_isIdentifierQuote (part.quoting.isIdentifierQuote_mark c hmark)
  · exact part.column.not_blank c hname
  · exact isBlank_of_isIdentifierQuote (part.quoting.isIdentifierQuote_mark c hmark)

/-- The name and the size have no blanks. -/
theorem KeyPart.core_not_blank (part : KeyPart) :
    ∀ c ∈ part.named ++ KeySize.text part.size, isBlank c = false := by
  intro c hc
  rcases List.mem_append.mp hc with hname | hsize
  · exact part.named_not_blank c hname
  · cases hopt : part.size with
    | none =>
        rw [hopt] at hsize
        cases hsize
    | some size =>
        rw [hopt] at hsize
        simp only [KeySize.text, List.mem_cons, List.mem_append, List.not_mem_nil,
          or_false] at hsize
        rcases hsize with rfl | hdigit | rfl
        · decide
        · exact isBlank_of_isDecimal (size.isDigits c hdigit)
        · decide

/-- No keyword with blanks behind it stands in a text without blanks. -/
theorem anyKeyword_blanks_eq_none {words : List String} {cs : List Char}
    (h : ∀ c ∈ cs, isBlank c = false) : (anyKeyword words cs).bind blanks = none := by
  cases hread : anyKeyword words cs with
  | none => rfl
  | some rest =>
      obtain ⟨word, -, hword⟩ := List.exists_of_findSome?_eq_some hread
      obtain ⟨spelled, -, hsplit⟩ := afterLetters_eq_some_iff.mp hword
      cases rest with
      | nil => rfl
      | cons c rest =>
          have hc : isBlank c = false := h c (by rw [hsplit]; simp)
          simp [blanks, hc]

/-- A text without blanks keeps its start when blanks are dropped. -/
theorem trimStart_of_not_blank {cs : List Char} (h : ∀ c ∈ cs, isBlank c = false) :
    trimStart cs = cs := by
  cases cs with
  | nil => rfl
  | cons c cs => exact trimStart_cons_of_not_blank (h c List.mem_cons_self) cs

/-- The order is taken from the end. -/
theorem dropSortOrder_append {cs : List Char} (h : ∀ c ∈ cs, isBlank c = false)
    (order : Option SortOrder) : dropSortOrder (cs ++ SortOrder.text order) = cs := by
  have hrev : ∀ c ∈ cs.reverse, isBlank c = false := fun c hc => h c (List.mem_reverse.mp hc)
  cases order with
  | none =>
      rw [show SortOrder.text none = [] from rfl, List.append_nil, dropSortOrder]
      simp only [anyKeyword_blanks_eq_none hrev]
  | some order =>
      have hread : ((anyKeyword ["CSA", "CSED"]
          (cs ++ SortOrder.text (some order)).reverse).bind blanks) = some (trimStart cs.reverse) := by
        rw [List.reverse_append]
        cases order <;> rfl
      rw [dropSortOrder]
      simp only [hread]
      rw [trimStart_of_not_blank hrev, List.reverse_reverse]

/-- The size is taken from the end. -/
theorem KeyPart.dropSize_core (part : KeyPart) :
    dropSize (part.named ++ KeySize.text part.size) = part.named := by
  have hrev : ∀ c ∈ part.named.reverse, isBlank c = false :=
    fun c hc => part.named_not_blank c (List.mem_reverse.mp hc)
  cases part.size with
  | none =>
      have hclose : ∀ c ∈ part.named, c ≠ ')' := by
        rintro c hc rfl
        simp only [KeyPart.named, List.mem_append] at hc
        rcases hc with hmark | hname | hmark
        · exact absurd (part.quoting.isIdentifierQuote_mark _ hmark) (by decide)
        · exact absurd (part.column.isWord _ hname) (by decide)
        · exact absurd (part.quoting.isIdentifierQuote_mark _ hmark) (by decide)
      have hread : reversedSize part.named.reverse = none := by
        cases hnamed : part.named.reverse with
        | nil => rfl
        | cons c rest =>
            have hc : c ≠ ')' := hclose c (List.mem_reverse.mp (by rw [hnamed]; simp))
            simp [reversedSize, symbol, hc]
      rw [show KeySize.text none = [] from rfl, List.append_nil, dropSize, hread]
  | some size =>
      have hdigits : ∀ c ∈ size.chars.reverse, isDecimal c = true :=
        fun c hc => size.isDigits c (List.mem_reverse.mp hc)
      have hstop : ∀ c, ('(' :: part.named.reverse).head? = some c → isDecimal c = false := by
        rintro c hc
        cases hc
        decide
      obtain ⟨htake, hdrop⟩ := takeWhile_append_stop hdigits hstop
      have hblank : trimStart (size.chars.reverse ++ '(' :: part.named.reverse)
          = size.chars.reverse ++ '(' :: part.named.reverse := by
        apply trimStart_of_not_blank
        intro c hc
        rcases List.mem_append.mp hc with hdigit | hrest
        · exact isBlank_of_isDecimal (hdigits c hdigit)
        · rcases List.mem_cons.mp hrest with rfl | hname
          · decide
          · exact hrev c hname
      have hopen : trimStart ('(' :: part.named.reverse) = '(' :: part.named.reverse :=
        trimStart_cons_of_not_blank (by decide) _
      have htext : (part.named ++ KeySize.text (some size)).reverse
          = ')' :: (size.chars.reverse ++ '(' :: part.named.reverse) := by
        simp [KeySize.text]
      have hread : reversedSize (')' :: (size.chars.reverse ++ '(' :: part.named.reverse))
          = some part.named.reverse := by
        simp only [reversedSize, symbol, if_true, Option.bind_eq_bind, Option.bind_some, hblank,
          htake, hdrop, hopen, trimStart_of_not_blank hrev]
        rw [if_neg (by simp [size.ne_nil])]
      rw [dropSize, htext, hread]
      exact List.reverse_reverse _

/-- Quotes in front of a word are dropped and nothing of the word. -/
theorem dropWhile_quote_append {mark w : List Char}
    (hmark : ∀ c ∈ mark, isIdentifierQuote c = true) (hne : w ≠ [])
    (hw : ∀ c ∈ w, isWordChar c = true) (rest : List Char) :
    (mark ++ (w ++ rest)).dropWhile isIdentifierQuote = w ++ rest := by
  cases w with
  | nil => exact absurd rfl hne
  | cons c w =>
      have hc := isIdentifierQuote_of_isWordChar (hw c List.mem_cons_self)
      rw [List.dropWhile_append_of_pos hmark]
      simp [hc]

/-- The quotes are taken from both ends. -/
theorem KeyPart.trimMatches_named (part : KeyPart) :
    trimMatches isIdentifierQuote part.named = part.column.chars := by
  have hmark := part.quoting.isIdentifierQuote_mark
  have hfront := dropWhile_quote_append hmark part.column.ne_nil part.column.isWord
    part.quoting.mark
  have hrev : ∀ c ∈ part.column.chars.reverse, isWordChar c = true :=
    fun c hc => part.column.isWord c (List.mem_reverse.mp hc)
  have hback := dropWhile_quote_append hmark (by simp [part.column.ne_nil]) hrev []
  rw [List.append_nil] at hback
  rw [trimMatches, KeyPart.named, hfront, dropTail, List.reverse_append,
    part.quoting.reverse_mark, hback, List.reverse_reverse]

/-- A written column of a key is read as its name. -/
theorem KeyPart.keyColumn_text (part : KeyPart) : keyColumn part.text = part.column.chars := by
  have htext : part.text = (part.named ++ KeySize.text part.size) ++ SortOrder.text part.order := by
    simp [KeyPart.text, KeyPart.named]
  have hhead : ∀ c, part.named.head? = some c → isBlank c = false :=
    fun c hc => part.named_not_blank c (List.mem_of_mem_head? hc)
  have hlast : ∀ c, part.named.getLast? = some c → isBlank c = false :=
    fun c hc => part.named_not_blank c (List.mem_of_getLast? hc)
  rw [keyColumn, htext, dropSortOrder_append part.core_not_blank, part.dropSize_core,
    trim_eq_self hhead hlast, part.trimMatches_named]

/-- The list of a key is read as the names of its columns. -/
theorem KeyDef.keyColumns_list (key : KeyDef) :
    keyColumns key.list = key.parts.map fun part => String.ofList part.column.chars := by
  have hcolumns : (key.parts.map KeyPart.text).map keyColumn
      = key.parts.map fun part => part.column.chars := by
    rw [List.map_map]
    exact List.map_congr_left fun part _ => part.keyColumn_text
  have hfilter : (key.parts.map fun part => part.column.chars).filter (!·.isEmpty)
      = key.parts.map fun part => part.column.chars := by
    apply List.filter_eq_self.mpr
    intro w hw
    obtain ⟨part, -, rfl⟩ := List.mem_map.mp hw
    simp [part.column.ne_nil]
  rw [keyColumns, key.splitTopLevel_list, hcolumns, hfilter, List.map_map]
  rfl

/-! ## Heads -/

/-- The list of a key is not empty. -/
theorem KeyDef.list_ne_nil (key : KeyDef) : key.list ≠ [] := by
  obtain ⟨part, parts, hparts⟩ := List.exists_cons_of_ne_nil key.ne_nil
  rw [KeyDef.list, hparts]
  cases parts with
  | nil => exact part.trimmed.ne_nil
  | cons next parts => simp [join, part.trimmed.ne_nil]

/-- The list of a key runs to the last parenthesis. -/
theorem KeyDef.parenBody_list (key : KeyDef) :
    parenBody ('(' :: (key.list ++ [')'])) = some key.list := by
  have hlast : splitLast? ')' (key.list ++ [')']) = some (key.list, []) := by
    simp [splitLast?, splitOnce?]
  simp [parenBody, symbol, hlast, key.list_ne_nil]

/-- The tail of a key is its name and its list. -/
theorem KeyDef.keyTail_text (key : KeyDef) (name : Word) :
    keyTail (keyNameText name ++ '(' :: (key.list ++ [')'])) = some (some name.chars, key.list) := by
  have hname : word (name.chars ++ '\x60' :: ' ' :: '(' :: (key.list ++ [')']))
      = some (name.chars, '\x60' :: ' ' :: '(' :: (key.list ++ [')'])) := name.read rfl
  have htext : keyNameText name ++ '(' :: (key.list ++ [')'])
      = '\x60' :: (name.chars ++ '\x60' :: ' ' :: '(' :: (key.list ++ [')'])) := by
    simp [keyNameText]
  have hstart := trimStart_cons_of_not_blank (c := '\x60') (by decide)
    (name.chars ++ '\x60' :: ' ' :: '(' :: (key.list ++ [')']))
  have hopen : trimStart (' ' :: '(' :: (key.list ++ [')'])) = '(' :: (key.list ++ [')']) := rfl
  rw [htext, keyTail]
  simp [hstart, optionalMark, hname, hopen, key.parenBody_list]

/-- So it is behind the word for a key. -/
theorem KeyDef.optionalKeyTail_text (key : KeyDef) (name : Word) :
    optionalKeyTail (" KEY ".toList ++ (keyNameText name ++ '(' :: (key.list ++ [')'])))
      = some (some name.chars, key.list) := by
  show (keyTail (keyNameText name ++ '(' :: (key.list ++ [')']))).or _ = _
  rw [key.keyTail_text]
  rfl

/-- **Reading undoes writing for keys.**  A written key is read as the key that it stands
for. -/
theorem KeyDef.parseKey_text (key : KeyDef) : parseKey key.text = some key.key := by
  have hlist := key.keyColumns_list
  unfold KeyDef.text KeyDef.key
  rw [← hlist]
  cases key.head with
  | primary =>
      show (((parenBody ('(' :: (key.list ++ [')']))).bind _).or _) = _
      rw [key.parenBody_list]
      rfl
  | unique name =>
      show parseKey ("UNIQUE KEY ".toList ++ keyNameText name ++ _) = _
      rw [List.append_assoc]
      show ((optionalKeyTail (" KEY ".toList ++ (keyNameText name ++ _))).bind _).or _ = _
      rw [key.optionalKeyTail_text]
      rfl
  | fulltext name =>
      show parseKey ("FULLTEXT KEY ".toList ++ keyNameText name ++ _) = _
      rw [List.append_assoc]
      show ((optionalKeyTail (" KEY ".toList ++ (keyNameText name ++ _))).bind _).or _ = _
      rw [key.optionalKeyTail_text]
      rfl
  | index name =>
      show parseKey ("KEY ".toList ++ keyNameText name ++ _) = _
      rw [List.append_assoc]
      show (keyTail (keyNameText name ++ _)).bind _ = _
      rw [key.keyTail_text]
      rfl

end CodeIndex.Sql
