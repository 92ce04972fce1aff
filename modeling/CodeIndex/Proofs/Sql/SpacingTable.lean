import CodeIndex.Proofs.Sql.KeyRead
import CodeIndex.Proofs.Sql.Spacing

/-!
# Tables and the layout of their statements

Squeezing a script squeezes the texts of its tables and does nothing else to them.  Names and
types of columns, flags, engine and character set hold no layout, so they stay.  A default, a
comment, and the name and columns of a key are cut out of the script as they stand, so these
are compared in their squeezed form.

* `typeWords_of_le` : the bound on the number of type words plays no part.
* `parseKey_steady` : a key, with its name and columns squeezed.
* `parseColumn_squeeze` : a column, up to the layout of its default and comment.
* `segments_squeeze` : the segments of a script.
* `filterMap_parseStatement_congr` : scripts that differ in layout give tables that do.
* `Table.eq_of_squeezed` : without line breaks in the texts, the tables are equal.
-/

namespace CodeIndex

open Text

/-- A text in its squeezed form. -/
def squeezed (s : String) : String := String.ofList (squeeze s.toList)

/-- A column with its texts squeezed. -/
def Column.squeezed (c : Column) : Column :=
  { c with default := c.default.map CodeIndex.squeezed, comment := c.comment.map CodeIndex.squeezed }

/-- A key with its texts squeezed. -/
def Key.squeezed (k : Key) : Key :=
  { k with name := CodeIndex.squeezed k.name, columns := k.columns.map CodeIndex.squeezed }

/-- A table with its texts squeezed. -/
def Table.squeezed (t : Table) : Table :=
  { t with
    columns := t.columns.map Column.squeezed
    keys := t.keys.map Key.squeezed
    comment := t.comment.map CodeIndex.squeezed }

@[simp] theorem squeezed_ofList (cs : List Char) :
    squeezed (String.ofList cs) = String.ofList (squeeze cs) := by
  rw [squeezed, String.toList_ofList]

@[simp] theorem squeezed_squeezed (s : String) : squeezed (squeezed s) = squeezed s := by
  rw [squeezed, squeezed, String.toList_ofList, squeeze_squeeze]

/-- Squeezing a key twice is squeezing it. -/
theorem Key.squeezed_squeezed (k : Key) : k.squeezed.squeezed = k.squeezed := by
  simp [Key.squeezed]

/-- A text without line breaks has nothing to squeeze. -/
theorem squeezed_eq_self {s : String} (h : '\n' ∉ s.toList) : squeezed s = s := by
  rw [squeezed, squeeze_eq_self h, String.ofList_toList]

namespace Sql

variable {α : Type}

/-- Texts with the same layout-free form are read alike. -/
theorem Steady.congr {read : List Char → Option α} {f : α → α} (h : Steady read f)
    {a b : List Char} (hab : squeeze a = squeeze b) : (read a).map f = (read b).map f := by
  rw [← h, ← h, hab]

/-- A piece that starts with a keyword does not start with a blank. -/
theorem keyword_bind_blank {word : String} (hword : IsKeyword word) (hne : word.toList ≠ [])
    (next : List Char → Option α) (c : Char) (rest : List Char) (hc : isBlank c = true) :
    (keyword word (c :: rest)).bind next = none := by
  rw [keyword_cons_of_not_word hword hne (isWordChar_of_isBlank hc)]
  rfl

/-! ## Types -/

/-- `front` is a text that ends with no blank. -/
def Solid (front : List Char) : Prop := Flush front.reverse

/-- Texts that end in no blank do so together. -/
theorem Solid.append {a b : List Char} (ha : Solid a) (hb : Solid b) : Solid (a ++ b) := by
  unfold Solid
  rw [List.reverse_append]
  exact Flush.append hb ha

/-- A text with another character at its end ends in no blank. -/
theorem solid_concat (a : List Char) {c : Char} (hc : isBlank c = false) : Solid (a ++ [c]) := by
  unfold Solid
  rw [List.reverse_append]
  exact flush_cons.mpr hc

/-- A text ends as its last part does. -/
theorem solid_append_of_not_blank (a : List Char) {b : List Char} (hne : b ≠ [])
    (hb : ∀ c ∈ b, isBlank c = false) : Solid (a ++ b) := by
  rw [← List.dropLast_append_getLast hne, ← List.append_assoc]
  exact solid_concat _ (hb _ (List.getLast_mem hne))

/-- A further word of a type ends in no blank. -/
theorem typeWord_split {cs rest : List Char} (h : typeWord cs = some rest) :
    ∃ front, front ≠ [] ∧ Solid front ∧ cs = front ++ rest := by
  rw [typeWord, Option.bind_eq_some_iff] at h
  obtain ⟨left, hleft, hread⟩ := h
  obtain ⟨word, hword, hkeyword⟩ := List.exists_of_findSome?_eq_some hread
  have hwords : ∀ word ∈ ["UNSIGNED", "SIGNED", "ZEROFILL"],
      IsKeyword word ∧ word.toList ≠ [] := by decide
  obtain ⟨hletters, hword⟩ := hwords word hword
  obtain ⟨text, hspells, rfl⟩ := afterLetters_eq_some_iff.mp hkeyword
  have htext : ∀ c ∈ text, isBlank c = false := fun c hc =>
    isBlank_of_isWordChar (hspells.isWordChar hletters c hc)
  have hne : text ≠ [] := by
    intro hnil
    rw [hnil] at hspells
    exact hword (List.length_eq_zero_iff.mp hspells.length_eq)
  cases cs with
  | nil => cases hleft
  | cons c cs =>
      by_cases hc : isBlank c = true
      · rw [blanks, if_pos hc, Option.some.injEq] at hleft
        refine ⟨c :: cs.takeWhile isBlank ++ text, by simp, solid_append_of_not_blank _ hne htext, ?_⟩
        rw [List.append_assoc, ← hleft, List.cons_append, trimStart,
          List.takeWhile_append_dropWhile]
      · simp [blanks, hc] at hleft

/-- A further word of a type does not see the spacing. -/
theorem typeWord_steady : Steady typeWord squeeze :=
  blanks_steady.bind (anyKeyword_steady (by decide))

/-- Type words are read as long as there are some, when there is fuel for all of the text. -/
theorem typeWords_of_le {fuel : Nat} {cs : List Char} (h : cs.length ≤ fuel) :
    typeWords fuel cs = typeWords cs.length cs := by
  induction fuel using Nat.strongRecOn generalizing cs with
  | ind fuel ih =>
      cases fuel with
      | zero => rw [Nat.le_zero.mp h]
      | succ fuel =>
          cases hword : typeWord cs with
          | none =>
              cases hlen : cs.length with
              | zero => simp [typeWords, hword]
              | succ n => simp [typeWords, hword]
          | some rest =>
              obtain ⟨front, hne, -, hcs⟩ := typeWord_split hword
              have hpos : 0 < front.length := List.length_pos_of_ne_nil hne
              have hlen : cs.length = front.length + rest.length := by rw [hcs, List.length_append]
              obtain ⟨n, hn⟩ : ∃ n, cs.length = n + 1 := ⟨cs.length - 1, by omega⟩
              rw [hn, typeWords, typeWords, hword]
              simp only
              rw [ih fuel (by omega) (by omega), ih n (by omega) (by omega)]

theorem typeWords_squeeze (cs : List Char) :
    typeWords (squeeze cs).length (squeeze cs) = squeeze (typeWords cs.length cs) := by
  have hsteps : ∀ (fuel : Nat) (cs : List Char),
      typeWords fuel (squeeze cs) = squeeze (typeWords fuel cs) := by
    intro fuel
    induction fuel with
    | zero => exact fun _ => rfl
    | succ fuel ih =>
        intro cs
        rw [typeWords, typeWords, typeWord_steady cs]
        cases typeWord cs with
        | none => rfl
        | some rest => exact ih rest
  have hle : (squeeze cs).length ≤ (squeeze cs).length + cs.length := Nat.le_add_right _ _
  have hle' : cs.length ≤ (squeeze cs).length + cs.length := Nat.le_add_left _ _
  rw [← typeWords_of_le hle, hsteps, typeWords_of_le hle']

theorem typeWords_split (fuel : Nat) (cs : List Char) :
    ∃ front, Solid front ∧ cs = front ++ typeWords fuel cs := by
  induction fuel generalizing cs with
  | zero => exact ⟨[], flush_nil, rfl⟩
  | succ fuel ih =>
      rw [typeWords]
      cases hword : typeWord cs with
      | none => exact ⟨[], flush_nil, rfl⟩
      | some rest =>
          obtain ⟨front, -, hfront, hcs⟩ := typeWord_split hword
          obtain ⟨more, hmore, hrest⟩ := ih rest
          refine ⟨front ++ more, hfront.append hmore, ?_⟩
          rw [List.append_assoc, ← hrest]
          exact hcs

/-- The list of a type does not see the spacing. -/
theorem afterList_steady : Steady afterList squeeze :=
  (((symbol_steady (by decide)).bind upToParen_steady).comp trimStart_squeeze).map fun _ => rfl

/-- The list of a type ends in no blank. -/
theorem afterList_split {cs rest : List Char} (h : afterList cs = some rest) :
    ∃ front, Solid front ∧ cs = front ++ rest := by
  rw [afterList, Option.map_eq_some_iff] at h
  obtain ⟨p, hp, rfl⟩ := h
  obtain ⟨inner, hopen, hclose⟩ := Option.bind_eq_some_iff.mp hp
  rw [upToParen_eq] at hclose
  obtain ⟨hinner, -⟩ := splitOnce?_eq_some_iff.mp hclose
  have htrim : trimStart cs = '(' :: inner := by
    cases hcs : trimStart cs with
    | nil => simp [hcs, symbol] at hopen
    | cons c more =>
        rw [hcs, symbol] at hopen
        split at hopen
        · rename_i hc
          rw [hc, Option.some.inj hopen]
        · cases hopen
  refine ⟨cs.takeWhile isBlank ++ '(' :: p.1 ++ [')'], solid_concat _ (by decide), ?_⟩
  calc cs = cs.takeWhile isBlank ++ trimStart cs := List.takeWhile_append_dropWhile.symm
    _ = cs.takeWhile isBlank ++ '(' :: p.1 ++ [')'] ++ p.2 := by simp [htrim, hinner]

/-- A type does not see the spacing. -/
theorem afterType_steady : Steady afterType squeeze := by
  intro cs
  rw [afterType_eq, afterType_eq, word_steady cs]
  cases word cs with
  | none => rfl
  | some p =>
      simp only [Option.map_some, Prod.map_snd, afterList_steady.getD]
      rw [typeWords_squeeze]

/-- A type ends in no blank. -/
theorem afterType_split {cs rest : List Char} (h : afterType cs = some rest) :
    ∃ front, Solid front ∧ cs = front ++ rest := by
  rw [afterType_eq, Option.map_eq_some_iff] at h
  obtain ⟨⟨name, left⟩, hname, rfl⟩ := h
  obtain ⟨hcs, hne, hword⟩ := word_split hname
  have hlist : ∃ front, Solid front ∧ left = front ++ (afterList left).getD left := by
    cases hl : afterList left with
    | none => exact ⟨[], flush_nil, rfl⟩
    | some rest => exact afterList_split hl
  obtain ⟨list, hsolid, hleft⟩ := hlist
  obtain ⟨words, hwords, hrest⟩ := typeWords_split ((afterList left).getD left).length
    ((afterList left).getD left)
  refine ⟨name ++ list ++ words, Solid.append (Solid.append ?_ hsolid) hwords, ?_⟩
  · exact solid_append_of_not_blank [] hne fun c hc => isBlank_of_isWordChar (hword c hc)
  · rw [List.append_assoc, ← hrest, List.append_assoc, ← hleft, ← hcs]

/-! ## Columns -/

/-- What stands in front of a rest, when the text before it ends with no blank. -/
theorem take_squeeze {cs front rest : List Char} (hcs : cs = front ++ rest) (hfront : Solid front) :
    (squeeze cs).take ((squeeze cs).length - (squeeze rest).length)
      = squeeze (cs.take (cs.length - rest.length)) := by
  rw [hcs, squeeze_append (.inr hfront)]
  simp

/-- The head of a column is read alike, its type squeezed. -/
theorem columnHead_steady :
    Steady columnHead (Prod.map id (Prod.map squeeze squeeze)) := by
  intro part
  have hmarks : ∀ c ∈ ['\x60', '"'], isBlank c = false := by decide
  simp only [columnHead, Option.bind_eq_bind]
  rw [optionalMark_squeeze hmarks, word_steady]
  cases word (optionalMark ['\x60', '"'] part) with
  | none => rfl
  | some p =>
      obtain ⟨name, left⟩ := p
      simp only [Option.map_some, Option.bind_some, Prod.map_apply, id_eq]
      rw [optionalMark_squeeze hmarks, blanks_steady]
      cases blanks (optionalMark ['\x60', '"'] left) with
      | none => rfl
      | some typed =>
          simp only [Option.map_some, Option.bind_some]
          rw [afterType_steady]
          cases hrest : afterType typed with
          | none => rfl
          | some rest =>
              obtain ⟨front, hfront, htyped⟩ := afterType_split hrest
              simp [take_squeeze htyped hfront]

/-- The comment of a column is squeezed. -/
theorem columnComment_steady : Steady columnComment (Prod.map squeeze squeeze) :=
  (keyword_steady (by decide)).bind (blanks_steady.bind
    ((symbol_steady (by decide)).bind singleQuoted_steady))

/-- A word that is there as a whole. -/
theorem boundary_steady : Steady (fun cs => if isBoundary cs.head? then some () else none) id := by
  intro cs
  simp only [isBoundary_squeeze]
  split <;> rfl

/-- The reader for `NOT NULL` does not see the spacing. -/
theorem notNull_steady : Steady notNull id :=
  (keyword_steady (by decide)).bind (blanks_steady.bind
    ((keyword_steady (by decide)).bind boundary_steady))

theorem autoIncrement_steady : Steady autoIncrement id :=
  (keyword_steady (by decide)).bind boundary_steady

/-- A text between two marks, with what is behind the second dropped. -/
theorem between_steady {first last : Char} (hfirst : isBlank first = false)
    (hlast : isBlank last = false) {read : List Char → Option (List Char × List Char)}
    (h : Steady read (Prod.map squeeze squeeze)) :
    Steady (fun cs => ((symbol first cs).bind read).map fun p => first :: p.1 ++ [last])
      squeeze := by
  refine ((symbol_steady hfirst).bind h).map fun p => ?_
  rw [squeeze_append_flush _ (flush_cons.mpr hlast), squeeze_cons_of_not_blank hfirst,
    squeeze_cons_of_not_blank hlast]
  rfl

/-- A value is in single quotes, in double quotes, in parentheses or a run. -/
theorem defaultText_eq (cs : List Char) : defaultText cs =
    (((symbol '\'' cs).bind singleQuoted).map fun p => '\'' :: p.1 ++ ['\'']).or
      ((((symbol '"' cs).bind doubleQuoted).map fun p => '"' :: p.1 ++ ['"']).or
        ((((symbol '(' cs).bind upToParen).map fun p => '(' :: p.1 ++ [')']).or
          (match cs.takeWhile fun c => !isBlank c && c ≠ ',' with
            | [] => none
            | run => some run))) := by
  rw [defaultText]
  cases symbol '\'' cs <;> cases symbol '"' cs <;> cases symbol '(' cs <;>
    simp only [Option.bind_eq_bind, Option.bind_some, Option.bind_none,
      Option.map_eq_bind] <;> rfl

/-- A value is squeezed. -/
theorem defaultText_steady : Steady defaultText squeeze := by
  have hbare : Steady (fun cs : List Char => match cs.takeWhile fun c => !isBlank c && c ≠ ',' with
      | [] => none
      | run => some run) squeeze := by
    intro cs
    have hp : ∀ c, (!isBlank c && c ≠ ',') = true → isBlank c = false := by
      intro c hc
      simp only [Bool.and_eq_true, Bool.not_eq_true'] at hc
      exact hc.1
    have hrun : ∀ c ∈ cs.takeWhile fun c => !isBlank c && c ≠ ',', isBlank c = false := by
      intro c hc
      have := List.mem_takeWhile_imp hc
      exact hp c this
    simp only [takeWhile_squeeze hp cs]
    cases hbare : cs.takeWhile fun c => !isBlank c && c ≠ ',' with
    | nil => rfl
    | cons c run =>
        rw [hbare] at hrun
        rw [Option.map_some, squeeze_of_not_blank hrun]
  intro cs
  rw [defaultText_eq, defaultText_eq]
  exact ((between_steady (by decide) (by decide) singleQuoted_steady).or
    ((between_steady (by decide) (by decide) doubleQuoted_steady).or
      ((between_steady (by decide) (by decide) upToParen_steady).or hbare))) cs

/-- A default is squeezed. -/
theorem columnDefault_steady : Steady columnDefault squeeze :=
  (keyword_steady (by decide)).bind (blanks_steady.bind defaultText_steady)

/-- No comment starts with a blank. -/
theorem columnComment_blank (c : Char) (rest : List Char) (hc : isBlank c = true) :
    columnComment (c :: rest) = none :=
  keyword_bind_blank (by decide) (by decide) _ c rest hc

/-- The attributes behind a comment are squeezed. -/
theorem squeeze_attributes (rest : List Char) :
    squeeze (attributes (squeeze rest)) = squeeze (attributes rest) := by
  rw [attributes, attributes, search_steady columnComment_steady columnComment_blank none rest]
  cases search columnComment none rest with
  | none => exact squeeze_squeeze rest
  | some found => exact squeeze_append_congr (squeeze_squeeze _) (squeeze_squeeze _)

/-- The column of a squeezed head is the squeezed column. -/
theorem columnOf_squeeze (head : List Char × List Char × List Char) :
    (columnOf (Prod.map id (Prod.map squeeze squeeze) head)).squeezed
      = (columnOf head).squeezed := by
  obtain ⟨name, type, rest⟩ := head
  have hrest := squeeze_attributes rest
  have hflag : ∀ {piece : List Char → Option Unit}, Steady piece id →
      (∀ c rest, isBlank c = true → piece (c :: rest) = none) →
      occurs piece (attributes (squeeze rest)) = occurs piece (attributes rest) := by
    intro piece hsteady hpiece
    rw [← occurs_squeeze hsteady hpiece, hrest, occurs_squeeze hsteady hpiece]
  have hdefault := (searchFirst_steady columnDefault_steady
    (fun c rest hc => keyword_bind_blank (by decide) (by decide) _ c rest hc)).congr hrest
  have hcomment := (searchFirst_steady columnComment_steady columnComment_blank).congr
    (squeeze_squeeze rest)
  simp only [Column.squeezed, columnOf, Prod.map_apply, id_eq, words_squeeze,
    hflag notNull_steady fun c rest hc => keyword_bind_blank (by decide) (by decide) _ c rest hc,
    hflag autoIncrement_steady fun c rest hc =>
      keyword_bind_blank (by decide) (by decide) _ c rest hc]
  have hdefault' := congrArg (Option.map String.ofList) hdefault
  have hcomment' := congrArg (Option.map fun p => String.ofList p.1) hcomment
  simp only [Option.map_map, Function.comp_def, Prod.map_fst] at hdefault' hcomment'
  simp only [Option.map_map, Function.comp_def, squeezed_ofList, hdefault', hcomment']

/-- **A column, up to the layout of its default and comment.** -/
theorem parseColumn_squeeze (part : List Char) :
    (parseColumn (squeeze part)).map Column.squeezed = (parseColumn part).map Column.squeezed := by
  rw [parseColumn_eq, parseColumn_eq, words_squeeze, columnHead_steady]
  cases (words part).head? with
  | none => rfl
  | some leader =>
      simp only [Option.bind_some]
      split
      · rfl
      · cases columnHead part with
        | none => rfl
        | some head => exact congrArg some (columnOf_squeeze head)

/-! ## Keys -/

/-- A list is squeezed. -/
theorem parenBody_steady : Steady parenBody squeeze := by
  intro cs
  rw [parenBody, parenBody, symbol_steady (by decide)]
  cases symbol '(' cs with
  | none => rfl
  | some inner =>
      simp only [Option.bind_eq_bind, Option.map_some, Option.bind_some]
      rw [splitLast?_squeeze (by decide)]
      cases splitLast? ')' inner with
      | none => rfl
      | some parts =>
          simp only [Option.map_some, Option.bind_some, Prod.map_fst, isEmpty_squeeze]
          split <;> rfl

/-- Reading a text from its end. -/
theorem squeeze_reversed {read : List Char → Option (List Char)} (h : Steady read squeeze)
    (cs : List Char) :
    (match read (squeeze cs).reverse with
      | some rest => rest.reverse
      | none => squeeze cs)
    = squeeze (match read cs.reverse with
      | some rest => rest.reverse
      | none => cs) := by
  rw [← squeeze_reverse, h]
  cases read cs.reverse with
  | none => rfl
  | some rest => exact (squeeze_reverse rest).symm

/-- Sort orders do not see the spacing. -/
theorem dropSortOrder_squeeze (cs : List Char) :
    dropSortOrder (squeeze cs) = squeeze (dropSortOrder cs) :=
  squeeze_reversed ((anyKeyword_steady (by decide)).bind blanks_steady) cs

/-- Sizes do not see the spacing, read from the end. -/
theorem reversedSize_steady : Steady reversedSize squeeze := by
  have hdigit : ∀ c, isDecimal c = true → isBlank c = false := fun _ => isBlank_of_isDecimal
  intro rev
  rw [reversedSize, reversedSize, symbol_steady (by decide)]
  cases symbol ')' rev with
  | none => rfl
  | some inner =>
      simp only [Option.bind_eq_bind, Option.map_some, Option.bind_some]
      rw [trimStart_squeeze, takeWhile_squeeze hdigit, dropWhile_squeeze hdigit,
        trimStart_squeeze, symbol_steady (by decide)]
      split
      · rfl
      · cases symbol '(' (trimStart ((trimStart inner).dropWhile isDecimal)) with
        | none => rfl
        | some rest => exact congrArg some (trimStart_squeeze rest)

/-- Sizes do not see the spacing. -/
theorem dropSize_squeeze (cs : List Char) : dropSize (squeeze cs) = squeeze (dropSize cs) :=
  squeeze_reversed reversedSize_steady cs

/-- The name of a column in a key is squeezed. -/
theorem keyColumn_squeeze (cs : List Char) : keyColumn (squeeze cs) = squeeze (keyColumn cs) := by
  have hquote : ∀ c, isIdentifierQuote c = true → isBlank c = false :=
    fun _ => isBlank_of_isIdentifierQuote
  rw [keyColumn, keyColumn, dropSortOrder_squeeze, dropSize_squeeze, trim_squeeze,
    trimMatches_squeeze hquote]

theorem keyColumns_squeeze (list : List Char) :
    keyColumns (squeeze list) = (keyColumns list).map squeezed := by
  rw [keyColumns, keyColumns, splitTopLevel_squeeze]
  simp only [List.filter_map, List.map_map, Function.comp_def, keyColumn_squeeze,
    isEmpty_squeeze, squeezed_ofList]

/-- What follows a constraint is squeezed. -/
theorem afterConstraint_squeeze (cs : List Char) :
    afterConstraint (squeeze cs) = squeeze (afterConstraint cs) := by
  have hp : ∀ c, (!isBlank c) = true → isBlank c = false := by simp
  -- the name is there when something was dropped, which squeezing does not change
  have hname : ∀ name : List Char,
      (name.dropWhile (!isBlank ·)).length = name.length ↔ name.takeWhile (!isBlank ·) = [] := by
    intro name
    have hlen := congrArg List.length
      (List.takeWhile_append_dropWhile (p := fun c => !isBlank c) (l := name))
    rw [List.length_append] at hlen
    rw [← List.length_eq_zero_iff]
    omega
  have hgroup : Steady (fun name : List Char =>
      if (name.dropWhile (!isBlank ·)).length = name.length then none
      else blanks (name.dropWhile (!isBlank ·))) squeeze := by
    intro name
    simp only [hname, takeWhile_squeeze hp]
    rw [dropWhile_squeeze hp, blanks_steady]
    split <;> rfl
  exact ((keyword_steady (by decide)).bind (blanks_steady.bind hgroup)).getD cs

/-- A word, whose text holds no layout. -/
theorem word_steady_fst : Steady word (Prod.map squeeze squeeze) := by
  intro cs
  rw [word_steady]
  cases hread : word cs with
  | none => rfl
  | some p =>
      obtain ⟨-, -, hword⟩ := word_split (show word cs = some (p.1, p.2) from hread)
      have hname : squeeze p.1 = p.1 :=
        squeeze_of_not_blank fun c hc => isBlank_of_isWordChar (hword c hc)
      exact congrArg some (Prod.ext hname.symm rfl)

/-- The rest of a key is squeezed. -/
theorem keyTail_steady : Steady keyTail (Prod.map (Option.map squeeze) squeeze) := by
  have hmarks : ∀ c ∈ ['\x60', '"'], isBlank c = false := by decide
  intro cs
  rw [keyTail, keyTail, trimStart_squeeze, optionalMark_squeeze hmarks, word_steady_fst,
    parenBody_steady]
  cases word (optionalMark ['\x60', '"'] (trimStart cs)) with
  | none => cases parenBody (trimStart cs) <;> rfl
  | some p =>
      simp only [Option.bind_eq_bind, Option.map_some, Option.bind_some, Prod.map_fst,
        Prod.map_snd]
      rw [optionalMark_squeeze hmarks, trimStart_squeeze, parenBody_steady]
      cases parenBody (trimStart (optionalMark ['\x60', '"'] p.2)) with
      | none => cases parenBody (trimStart cs) <;> rfl
      | some body => rfl

/-- The key of a squeezed list is the squeezed key. -/
theorem keyOf_squeeze (kind : KeyKind) (tail : Option (List Char) × List Char) :
    keyOf kind (Prod.map (Option.map squeeze) squeeze tail) = (keyOf kind tail).squeezed := by
  obtain ⟨name, list⟩ := tail
  simp only [keyOf, Key.squeezed, Prod.map_apply, keyColumns_squeeze]
  cases name with
  | some name => simp
  | none => cases keyColumns list <;> rfl

theorem optionalKeyTail_steady :
    Steady optionalKeyTail (Prod.map (Option.map squeeze) squeeze) :=
  ((blanks_steady.bind (anyKeyword_steady (by decide))).bind keyTail_steady).or keyTail_steady

/-- What follows the choice of an index type is squeezed. -/
theorem afterUsing_steady : Steady afterUsing squeeze :=
  ((keyword_steady (by decide)).bind blanks_steady).bind
    (word_steady.map fun p => trimStart_squeeze p.2)

/-- Primary keys do not see the spacing. -/
theorem primaryKey_steady : Steady primaryKey Key.squeezed := by
  have hbody : Steady (fun left =>
      (parenBody ((afterUsing (trimStart left)).getD (trimStart left))).map fun body =>
        ({ name := "PRIMARY", kind := .primary, columns := keyColumns body } : Key))
      Key.squeezed := by
    refine (parenBody_steady.comp fun left => ?_).map fun body => ?_
    · rw [trimStart_squeeze, afterUsing_steady.getD]
    · have hname : squeezed "PRIMARY" = "PRIMARY" := squeezed_eq_self (by decide)
      simp only [keyColumns_squeeze, Key.squeezed, hname]
  intro part
  rw [primaryKey_eq, primaryKey_eq]
  exact (((((keyword_steady (by decide)).comp afterConstraint_squeeze).bind blanks_steady).bind
    (keyword_steady (by decide))).bind hbody) part

/-- Unique keys do not see the spacing. -/
theorem uniqueKey_steady : Steady uniqueKey Key.squeezed :=
  ((keyword_steady (by decide)).comp afterConstraint_squeeze).bind
    (optionalKeyTail_steady.made fun tail => keyOf_squeeze .unique tail)

/-- Fulltext keys do not see the spacing. -/
theorem fulltextKey_steady : Steady fulltextKey Key.squeezed :=
  (keyword_steady (by decide)).bind
    (optionalKeyTail_steady.made fun tail => keyOf_squeeze .fulltext tail)

/-- Plain keys do not see the spacing. -/
theorem plainKey_steady : Steady plainKey Key.squeezed :=
  (anyKeyword_steady (by decide)).bind (blanks_steady.bind
    (keyTail_steady.made fun tail => keyOf_squeeze .index tail))

/-- **A key, with its name and columns squeezed.** -/
theorem parseKey_steady : Steady parseKey Key.squeezed :=
  primaryKey_steady.or (uniqueKey_steady.or (fulltextKey_steady.or plainKey_steady))

/-! ## Statements -/

/-- The name of a table does not see the spacing. -/
theorem tableName_steady : Steady tableName (Prod.map id squeeze) := by
  have hchar : ∀ c, isTableNameChar c = true → isBlank c = false := by
    intro c hc
    simp only [isTableNameChar, Bool.not_eq_true', Bool.or_eq_false_iff] at hc
    exact hc.2
  have hbare : Steady bareName (Prod.map id squeeze) := by
    intro rest
    simp only [bareName, takeWhile_squeeze hchar rest, dropWhile_squeeze hchar rest]
    cases rest.takeWhile isTableNameChar <;> rfl
  exact (hbare.comp (optionalMark_squeeze (by decide))).or hbare

/-- A name and its body do not see the spacing. -/
theorem namedBody_steady : Steady namedBody (Prod.map id squeeze) := by
  intro cs
  rw [namedBody, namedBody, tableName_steady]
  cases tableName cs with
  | none => rfl
  | some p =>
      obtain ⟨name, rest⟩ := p
      simp only [Option.bind_eq_bind, Option.map_some, Option.bind_some, Prod.map_apply, id_eq]
      rw [optionalMark_squeeze (by decide), trimStart_squeeze, symbol_steady (by decide)]
      cases symbol '(' (trimStart (optionalMark ['\x60', '"', ']'] rest)) <;> rfl

/-- The head of a statement does not see the spacing. -/
theorem statementHead_steady : Steady statementHead (Prod.map id squeeze) := by
  have hwords : ∀ {word : String}, IsKeyword word →
      Steady (fun cs => (keyword word cs).bind blanks) squeeze :=
    fun hword => (keyword_steady hword).bind blanks_steady
  have hexists : Steady (fun rest => (((keyword "IF" rest).bind blanks).bind fun cs =>
      ((keyword "NOT" cs).bind blanks).bind fun cs => (keyword "EXISTS" cs).bind blanks)) squeeze :=
    (hwords (by decide)).bind ((hwords (by decide)).bind (hwords (by decide)))
  have hnamed : Steady (fun rest => ((((keyword "IF" rest).bind blanks).bind fun cs =>
      ((keyword "NOT" cs).bind blanks).bind fun cs =>
        (keyword "EXISTS" cs).bind blanks).bind namedBody).or (namedBody rest))
      (Prod.map id squeeze) :=
    (hexists.bind namedBody_steady).or namedBody_steady
  intro cs
  have hcreate := hwords (show IsKeyword "CREATE" by decide)
  have htable := hwords (show IsKeyword "TABLE" by decide)
  have := (hcreate.bind (htable.bind hnamed)) cs
  simpa only [statementHead, Option.bind_eq_bind, Option.bind_assoc] using this

/-- The word of an option does not see the spacing. -/
theorem optionWord_steady : Steady optionWord id :=
  (word_steady.comp trimStart_squeeze).map fun _ => rfl

theorem optionalEquals_squeeze (cs : List Char) :
    optionalEquals (squeeze cs) = squeeze (optionalEquals cs) := by
  rw [optionalEquals, optionalEquals, trimStart_squeeze]
  exact (symbol_steady (by decide)).getD (trimStart cs)

/-- The engine does not see the spacing. -/
theorem engineOption_steady : Steady engineOption id :=
  (keyword_steady (by decide)).bind
    (((symbol_steady (by decide)).comp trimStart_squeeze).bind optionWord_steady)

/-- The character set does not see the spacing. -/
theorem charsetOption_steady : Steady charsetOption id :=
  ((keyword_steady (by decide)).or
    ((keyword_steady (by decide)).bind (blanks_steady.bind (keyword_steady (by decide))))).bind
    (optionWord_steady.comp optionalEquals_squeeze)

/-- The comment of a table is squeezed. -/
theorem commentOption_steady : Steady commentOption squeeze := by
  have hquoted : Steady (fun rest => ((symbol '\'' (trimStart (optionalEquals rest))).bind
      singleQuoted).map Prod.fst) squeeze :=
    (((symbol_steady (by decide)).comp fun rest => by
      rw [optionalEquals_squeeze, trimStart_squeeze]).bind singleQuoted_steady).map fun _ => rfl
  intro cs
  have := ((keyword_steady (show IsKeyword "COMMENT" by decide)).bind hquoted) cs
  simpa only [commentOption, Option.bind_eq_bind, Option.map_eq_bind, Option.bind_assoc,
    Function.comp_def] using this

/-- No character set starts with a blank. -/
theorem charsetOption_blank (c : Char) (rest : List Char) (hc : isBlank c = true) :
    charsetOption (c :: rest) = none := by
  have hnone : ∀ word ∈ ["CHARSET", "CHARACTER"], keyword word (c :: rest) = none := by
    intro word hword
    have hwords : ∀ word ∈ ["CHARSET", "CHARACTER"], IsKeyword word ∧ word.toList ≠ [] := by decide
    exact keyword_cons_of_not_word (hwords word hword).1 (hwords word hword).2
      (isWordChar_of_isBlank hc) rest
  rw [charsetOption, hnone "CHARSET" (by decide), hnone "CHARACTER" (by decide)]
  rfl

/-- The keys of squeezed parts are the squeezed keys. -/
theorem bodyKeys_squeeze (parts : List (List Char)) :
    bodyKeys (parts.map squeeze) = (bodyKeys parts).map Key.squeezed := by
  rw [bodyKeys, bodyKeys, List.filterMap_map, List.map_filterMap]
  congr 1
  funext part
  exact parseKey_steady part

/-- The columns of squeezed parts are the columns, squeezed. -/
theorem bodyColumns_squeeze (parts : List (List Char)) :
    (bodyColumns (parts.map squeeze)).map Column.squeezed
      = (bodyColumns parts).map Column.squeezed := by
  rw [bodyColumns, bodyColumns, List.filterMap_map, List.map_filterMap, List.map_filterMap]
  congr 1
  funext part
  simp only [Function.comp_def, parseKey_steady part, Option.isSome_map]
  split
  · rfl
  · exact parseColumn_squeeze part

/-- **A statement, up to the layout of the texts in it.** -/
theorem parseStatement_squeeze (placeholder : String) (segment : List Char) :
    (parseStatement placeholder (squeeze segment)).map Table.squeezed
      = (parseStatement placeholder segment).map Table.squeezed := by
  rw [parseStatement, parseStatement, statementHead_steady]
  cases statementHead segment with
  | none => rfl
  | some head =>
      obtain ⟨name, rest⟩ := head
      simp only [Option.bind_eq_bind, Option.map_some, Option.bind_some, Prod.map_apply, id_eq]
      rw [closingParen_steady]
      cases closingParen rest with
      | none => rfl
      | some found =>
          obtain ⟨body, tail⟩ := found
          have hoption : ∀ {piece : List Char → Option (List Char)} {f : List Char → List Char},
              Steady piece f → (∀ c rest, isBlank c = true → piece (c :: rest) = none) →
              searchFirst piece (statementEnd (squeeze tail))
                = (searchFirst piece (statementEnd tail)).map f := by
            intro piece f hsteady hpiece
            rw [statementEnd_squeeze, searchFirst_steady hsteady hpiece]
          simp only [Option.map_some, Option.bind_some, Prod.map_apply, Option.some.injEq,
            Table.squeezed, splitTopLevel_squeeze, bodyKeys_squeeze, bodyColumns_squeeze,
            hoption engineOption_steady fun c rest hc =>
              keyword_bind_blank (by decide) (by decide) _ c rest hc,
            hoption charsetOption_steady charsetOption_blank,
            hoption commentOption_steady fun c rest hc =>
              keyword_bind_blank (by decide) (by decide) _ c rest hc]
          simp only [Option.map_id, id_eq, Option.map_map, List.map_map, Function.comp_def,
            squeezed_ofList, squeeze_squeeze, Key.squeezed_squeezed]

/-! ## Scripts -/

/-- Where a statement starts does not depend on the spacing. -/
theorem isHeader_squeeze (before : Option Char) (cs : List Char) :
    isHeader before (squeeze cs) = isHeader before cs := by
  have hphrase : Steady (phrase "CREATE" "TABLE") squeeze :=
    ((keyword_steady (by decide)).bind blanks_steady).bind (keyword_steady (by decide))
  rw [isHeader_eq, isHeader_eq, hphrase cs]
  cases phrase "CREATE" "TABLE" cs with
  | none => rfl
  | some rest => simp [isBoundary_squeeze]

/-- Blanks in front belong to the lead. -/
theorem segmentsFrom_run {run : List Char} (hrun : ∀ c ∈ run, isBlank c = true)
    (rest : List Char) {before : Option Char} (hbefore : run = [] → isBoundary before = true) :
    segmentsFrom before (run ++ rest) = withFront run (segmentsFrom none rest) := by
  induction run generalizing before with
  | nil =>
      have hnone : isBoundary before = isBoundary none := hbefore rfl
      rw [List.nil_append, segmentsFrom_congr hnone]
      rfl
  | cons c run ih =>
      have hc := hrun c List.mem_cons_self
      have hheader : isHeader before (c :: (run ++ rest)) = false := by
        rw [isHeader_eq, phrase_eq_none (keyword_cons_of_not_word (by decide) (by decide)
          (isWordChar_of_isBlank hc) _)]
        simp
      have hnext : run = [] → isBoundary (some c) = true := by
        intro _
        simp [isBoundary, isWordChar_of_isBlank hc]
      rw [List.cons_append, segmentsFrom_cons, hheader,
        ih (fun d hd => hrun d (List.mem_cons_of_mem _ hd)) hnext]
      rfl

/-- The text in front of the first statement starts as the script does. -/
theorem segmentsFrom_flush {before : Option Char} {cs : List Char} (h : Flush cs) :
    Flush (segmentsFrom before cs).1 := by
  cases cs with
  | nil => exact flush_nil
  | cons c cs =>
      rw [segmentsFrom_cons]
      split
      · exact flush_nil
      · exact flush_cons.mpr (flush_cons.mp h)

/-- The segments are squeezed. -/
theorem segmentsFrom_squeeze (before : Option Char) (cs : List Char) :
    segmentsFrom before (squeeze cs)
      = Prod.map squeeze (List.map squeeze) (segmentsFrom before cs) := by
  induction cs using runs_induction generalizing before with
  | nil => rfl
  | char c rest hc ih =>
      have hheader := isHeader_squeeze before (c :: rest)
      rw [squeeze_cons_of_not_blank hc] at hheader ⊢
      rw [segmentsFrom_cons, segmentsFrom_cons, hheader, ih]
      split <;> simp [squeeze_cons_of_not_blank hc]
  | run run rest hne hrun hrest ih =>
      rw [squeeze_run hrun hrest,
        segmentsFrom_run (isBlank_gap hrun) _ (fun h => absurd h (gap_ne_nil hne)),
        segmentsFrom_run hrun _ (fun h => absurd h hne), ih]
      simp [withFront, squeeze_run hrun (segmentsFrom_flush hrest)]

/-- The statements are squeezed. -/
theorem segments_squeeze (cs : List Char) :
    segments (squeeze cs) = (segments cs).map squeeze := by
  rw [segments, segments, segmentsFrom_squeeze]
  rfl

/-- A line break in front of a script changes no segment. -/
theorem segments_newline (cs : List Char) : segments ('\n' :: cs) = segments cs := by
  have hrun : ∀ c ∈ ['\n'], isBlank c = true := by decide
  rw [segments, segments, ← List.singleton_append, segmentsFrom_run hrun cs (by simp)]
  rfl

/-- **Texts that differ in layout give tables that do.** -/
theorem filterMap_parseStatement_congr (placeholder : String) {a b : List Char}
    (h : squeeze ('\n' :: a) = squeeze ('\n' :: b)) :
    ((segments a).filterMap (parseStatement placeholder)).map Table.squeezed
      = ((segments b).filterMap (parseStatement placeholder)).map Table.squeezed := by
  have hsqueeze : ∀ cs, ((segments cs).filterMap (parseStatement placeholder)).map Table.squeezed
      = (segments (squeeze ('\n' :: cs))).filterMap
        fun segment => (parseStatement placeholder segment).map Table.squeezed := by
    intro cs
    rw [segments_squeeze, segments_newline, List.filterMap_map, List.map_filterMap]
    congr 1
    funext segment
    exact (parseStatement_squeeze placeholder segment).symm
  rw [hsqueeze, hsqueeze, h]

end Sql

/-! ## Texts without line breaks -/

/-- The texts of a table that are cut out of the script as they stand. -/
def Table.texts (t : Table) : List String :=
  t.columns.flatMap (fun c => c.default.toList ++ c.comment.toList)
    ++ t.keys.flatMap (fun k => k.name :: k.columns) ++ t.comment.toList

/-- A text without line breaks is told apart from every other text by its squeezed form. -/
theorem eq_of_squeezed {s s' : String} (hs : '\n' ∉ s.toList)
    (h : squeezed s = squeezed s') : s = s' := by
  have hs' : '\n' ∉ s'.toList := by
    intro hmem
    apply hs
    have htext : (squeezed s).toList = (squeezed s').toList := congrArg String.toList h
    simp only [squeezed, String.toList_ofList] at htext
    exact (mem_squeeze (.inr rfl)).mp (htext ▸ (mem_squeeze (.inr rfl)).mpr hmem)
  rw [← squeezed_eq_self hs, h, squeezed_eq_self hs']

/-- Lists with the same images are equal where the first one's entries are told apart. -/
theorem eq_of_map_eq {α β : Type} {f : α → β} {as bs : List α}
    (h : ∀ a ∈ as, ∀ b, f a = f b → a = b) (hmap : as.map f = bs.map f) : as = bs := by
  induction as generalizing bs with
  | nil => simpa using hmap.symm
  | cons a as ih =>
      cases bs with
      | nil => cases hmap
      | cons b bs =>
          simp only [List.map_cons, List.cons.injEq] at hmap
          rw [h a List.mem_cons_self b hmap.1,
            ih (fun c hc => h c (List.mem_cons_of_mem _ hc)) hmap.2]

/-- Texts without line breaks are known from their squeezed forms. -/
theorem eq_of_map_squeezed {o o' : Option String} (h : ∀ s ∈ o.toList, '\n' ∉ s.toList)
    (hmap : o.map squeezed = o'.map squeezed) : o = o' := by
  cases o with
  | none => cases o' <;> simp_all
  | some s =>
      cases o' with
      | none => cases hmap
      | some s' => rw [eq_of_squeezed (h s (by simp)) (Option.some.inj hmap)]

/-- Columns without line breaks are known from their squeezed forms. -/
theorem Column.eq_of_squeezed {c c' : Column}
    (h : ∀ s ∈ c.default.toList ++ c.comment.toList, '\n' ∉ s.toList)
    (heq : c.squeezed = c'.squeezed) : c = c' := by
  obtain ⟨name, type, nullable, default, increment, comment⟩ := c
  obtain ⟨name', type', nullable', default', increment', comment'⟩ := c'
  simp only [Column.squeezed, Column.mk.injEq] at heq
  obtain ⟨rfl, rfl, rfl, hdefault, rfl, hcomment⟩ := heq
  have hdefault' : default = default' :=
    eq_of_map_squeezed (fun s hs => h s (List.mem_append_left _ hs)) hdefault
  have hcomment' : comment = comment' :=
    eq_of_map_squeezed (fun s hs => h s (List.mem_append_right _ hs)) hcomment
  rw [hdefault', hcomment']

/-- Keys without line breaks are known from their squeezed forms. -/
theorem Key.eq_of_squeezed {k k' : Key} (h : ∀ s ∈ k.name :: k.columns, '\n' ∉ s.toList)
    (heq : k.squeezed = k'.squeezed) : k = k' := by
  obtain ⟨name, kind, columns⟩ := k
  obtain ⟨name', kind', columns'⟩ := k'
  simp only [Key.squeezed, Key.mk.injEq] at heq
  obtain ⟨hname, rfl, hcolumns⟩ := heq
  have hname' := CodeIndex.eq_of_squeezed (h name List.mem_cons_self) hname
  have hcolumns' : columns = columns' := eq_of_map_eq
    (fun s hs _ => CodeIndex.eq_of_squeezed (h s (List.mem_cons_of_mem _ hs))) hcolumns
  rw [hname', hcolumns']

/-- **A table whose texts hold no line break** is told apart from every other table by its
squeezed form. -/
theorem Table.eq_of_squeezed {t t' : Table} (h : ∀ s ∈ t.texts, '\n' ∉ s.toList)
    (heq : t.squeezed = t'.squeezed) : t = t' := by
  have htexts : ∀ {s}, (∃ c ∈ t.columns, s ∈ c.default.toList ++ c.comment.toList) ∨
      (∃ k ∈ t.keys, s ∈ k.name :: k.columns) ∨ s ∈ t.comment.toList → '\n' ∉ s.toList := by
    intro s hs
    refine h s ?_
    simpa only [Table.texts, List.mem_append, List.mem_flatMap, or_assoc] using hs
  obtain ⟨qualified, short, columns, keys, engine, charset, comment⟩ := t
  obtain ⟨qualified', short', columns', keys', engine', charset', comment'⟩ := t'
  simp only [Table.squeezed, Table.mk.injEq] at heq
  obtain ⟨rfl, rfl, hcolumns, hkeys, rfl, rfl, hcomment⟩ := heq
  have hcolumns' : columns = columns' := eq_of_map_eq
    (fun c hc _ => Column.eq_of_squeezed fun s hs => htexts (.inl ⟨c, hc, hs⟩)) hcolumns
  have hkeys' : keys = keys' := eq_of_map_eq
    (fun k hk _ => Key.eq_of_squeezed fun s hs => htexts (.inr (.inl ⟨k, hk, hs⟩))) hkeys
  have hcomment' : comment = comment' :=
    eq_of_map_squeezed (fun s hs => htexts (.inr (.inr hs))) hcomment
  rw [hcolumns', hkeys', hcomment']

end CodeIndex
