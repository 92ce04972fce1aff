import CodeIndex.Proofs.Sql.Scan

/-!
# Readings put together

The recognisers are put together from smaller ones.  A fact of the form "changing the text by
`g` changes what is read by `f`" goes through each way of putting them together, so it is proved
for the smallest recognisers and carried from there.

The second half gives the longer recognisers as such compositions, and says where the tables of a
script come from.

* `Carries` : a reading goes along with a change of its text.
* `afterType_eq`, `parseColumn_eq`, `primaryKey_eq` : types, columns and primary keys as
  compositions.
* `exists_of_mem_parseTables` : the statement that a table comes from.
-/

namespace CodeIndex.Sql

open Text

variable {α β : Type}

/-- What is read after `g` is what is read before it, with `f` applied. -/
def Carries (g : List Char → List Char) (read : List Char → Option α) (f : α → α) : Prop :=
  ∀ cs, read (g cs) = (read cs).map f

namespace Carries

variable {g : List Char → List Char}

/-- Readers one after the other carry what both carry. -/
theorem bind {first : List Char → Option (List Char)} {next : List Char → Option α} {f : α → α}
    (hfirst : Carries g first g) (hnext : Carries g next f) :
    Carries g (fun cs => (first cs).bind next) f := by
  intro cs
  simp only [hfirst cs]
  cases first cs with
  | none => rfl
  | some rest => exact hnext rest

/-- Readers to choose from carry what both carry. -/
theorem or {first second : List Char → Option α} {f : α → α} (hfirst : Carries g first f)
    (hsecond : Carries g second f) : Carries g (fun cs => (first cs).or (second cs)) f := by
  intro cs
  simp only [hfirst cs, hsecond cs]
  cases first cs <;> rfl

/-- What is made of the result is carried if the change to the result is. -/
theorem map {read : List Char → Option α} {f : α → α} (h : Carries g read f) {made : α → β}
    {f' : β → β} (hg : ∀ a, made (f a) = f' (made a)) : Carries g (fun cs => (read cs).map made) f' := by
  intro cs
  simp only [h cs]
  cases read cs with
  | none => rfl
  | some a => simp [hg]

/-- A record made of what was read, as the last step of a reading. -/
theorem made {read : List Char → Option α} {f : α → α} (h : Carries g read f) {made : α → β}
    {f' : β → β} (hg : ∀ a, made (f a) = f' (made a)) :
    Carries g (fun cs => (read cs).bind fun a => some (made a)) f' := by
  intro cs
  simp only [h cs]
  cases read cs with
  | none => rfl
  | some a => simp [hg]

/-- A reading behind something that squeezing goes through. -/
theorem comp {read : List Char → Option α} {f : α → α} (h : Carries g read f)
    {before : List Char → List Char} (hbefore : ∀ cs, before (g cs) = g (before cs)) :
    Carries g (fun cs => read (before cs)) f := by
  intro cs
  simp only [hbefore cs, h (before cs)]

/-- A reading, or the text itself. -/
theorem getD {read : List Char → Option (List Char)} (h : Carries g read g) (cs : List Char) :
    (read (g cs)).getD (g cs) = g ((read cs).getD cs) := by
  rw [h]
  cases read cs <;> rfl

end Carries

/-! ## Pieces -/

/-- A word is the run of word characters in front. -/
theorem word_split {cs name rest : List Char} (h : word cs = some (name, rest)) :
    cs = name ++ rest ∧ name ≠ [] ∧ ∀ c ∈ name, isWordChar c = true := by
  unfold word at h
  split at h
  · cases h
  · rename_i run hrun
    obtain ⟨rfl, rfl⟩ := Prod.mk.inj (Option.some.inj h)
    exact ⟨List.takeWhile_append_dropWhile.symm, hrun, fun c hc => List.mem_takeWhile_imp hc⟩

/-- The text up to a parenthesis is the text in front of the first. -/
theorem upToParen_eq (cs : List Char) : upToParen cs = splitOnce? ')' cs := by
  induction cs with
  | nil => rfl
  | cons c cs ih => simp only [upToParen, splitOnce?, ih]

/-- What was read behind some text, with that text in front. -/
def withFront (front : List Char) (p : List Char × β) : List Char × β := (front ++ p.1, p.2)

/-- The scan passes over what is no parenthesis outside quotes. -/
theorem closingParenFrom_cons_other {s : QuoteState} {depth : Nat} {c : Char} {rest : List Char}
    (h : s.structural c = false ∨ (c ≠ '(' ∧ c ≠ ')')) :
    closingParenFrom s depth (c :: rest)
      = (closingParenFrom (s.step c) depth rest).map (withFront [c]) := by
  rcases h with h | ⟨hopen, hclose⟩
  · rw [closingParenFrom, h]
    rfl
  · rw [closingParenFrom, if_neg hopen, if_neg hclose, ite_self]
    rfl

/-- Only whether a word may start here matters of the character in front. -/
theorem segmentsFrom_congr {before before' : Option Char}
    (h : isBoundary before = isBoundary before') (cs : List Char) :
    segmentsFrom before cs = segmentsFrom before' cs := by
  cases cs with
  | nil => rfl
  | cons c cs => simp only [segmentsFrom_cons, isHeader_eq, h]

/-! ## Types, columns and primary keys -/

/-- The rest after a list in parentheses. -/
def afterList (cs : List Char) : Option (List Char) :=
  ((symbol '(' (trimStart cs)).bind upToParen).map Prod.snd

/-- Behind a type stands what is left behind its word, its list and its further words. -/
theorem afterType_eq (cs : List Char) : afterType cs = (word cs).map fun p =>
    typeWords ((afterList p.2).getD p.2).length ((afterList p.2).getD p.2) := by
  rw [afterType]
  cases word cs with
  | none => rfl
  | some p =>
      simp only [afterList, Option.bind_eq_bind, Option.bind_some, Option.map_some]
      cases symbol '(' (trimStart p.2) with
      | none => rfl
      | some inner =>
          simp only [Option.bind_some]
          cases upToParen inner <;> rfl

/-- What is left of a column when its comment is taken out. -/
def attributes (rest : List Char) : List Char :=
  match search columnComment none rest with
  | some (before, _, after) => before ++ after
  | none => rest

/-- The record of a column from its head. -/
def columnOf (head : List Char × List Char × List Char) : Column where
  name := String.ofList head.1
  type := String.ofList (join [' '] (words head.2.1))
  nullable := !occurs notNull (attributes head.2.2)
  default := (searchFirst columnDefault (attributes head.2.2)).map String.ofList
  autoIncrement := occurs autoIncrement (attributes head.2.2)
  comment := (searchFirst columnComment head.2.2).map fun p => String.ofList p.1

/-- A column is read unless a reserved word leads its part. -/
theorem parseColumn_eq (part : List Char) : parseColumn part =
    (words part).head?.bind fun leader =>
      if isReservedLeader leader then none else (columnHead part).map columnOf := by
  rw [parseColumn]
  cases (words part).head? with
  | none => rfl
  | some leader =>
      simp only [Option.bind_eq_bind, Option.bind_some]
      split
      · rfl
      · cases columnHead part with
        | none => rfl
        | some head =>
            obtain ⟨name, type, rest⟩ := head
            simp only [Option.bind_some, Option.map_some, columnOf, attributes, searchFirst,
              Option.map_map]
            rfl

/-- The text behind the index type of a primary key. -/
def afterUsing (rest : List Char) : Option (List Char) :=
  ((keyword "USING" rest).bind blanks).bind fun name => (word name).map fun p => trimStart p.2

/-- A primary key is its two words, an index type if there is one, and the list. -/
theorem primaryKey_eq (part : List Char) : primaryKey part =
    (((keyword "PRIMARY" (afterConstraint part)).bind blanks).bind (keyword "KEY")).bind fun left =>
      (parenBody ((afterUsing (trimStart left)).getD (trimStart left))).map fun body =>
        { name := "PRIMARY", kind := .primary, columns := keyColumns body } := by
  have husing (rest : List Char) : afterUsing rest = (keyword "USING" rest).bind fun gap =>
      (blanks gap).bind fun name => (word name).bind fun run => some (trimStart run.2) := by
    simp only [afterUsing, Option.bind_assoc, Option.map_eq_bind]
    rfl
  simp only [primaryKey, husing, Option.bind_eq_bind, Option.bind_assoc, Option.map_eq_bind]
  rfl

/-! ## Names of tables -/

/-- The name of a table without quotes, and the rest. -/
def bareName (cs : List Char) : Option (List Char × List Char) :=
  match cs.takeWhile isTableNameChar with
  | [] => none
  | name => some (name, cs.dropWhile isTableNameChar)

/-- The name of a table is read behind its opening quote, if there is one. -/
theorem tableName_eq (cs : List Char) :
    tableName cs = (bareName (optionalMark ['\x60', '"', '['] cs)).or (bareName cs) := rfl

/-! ## Tables of a script -/

/-- A table of a script has its names from the head of a statement, and its columns and keys from
the parts of the body behind the head. -/
theorem exists_of_mem_parseTables {placeholder script : String} {t : Table}
    (h : t ∈ parseTables placeholder script) : ∃ segment name rest body tail,
      segment ∈ segments (dropComments script.toList) ∧
      statementHead segment = some (name, rest) ∧ closingParen rest = some (body, tail) ∧
      t.qualifiedName = String.ofList name ∧
      t.shortName = stripTablePrefix t.qualifiedName placeholder ∧
      t.columns = bodyColumns (splitTopLevel body) ∧ t.keys = bodyKeys (splitTopLevel body) := by
  rw [parseTables, List.mem_filterMap] at h
  obtain ⟨segment, hsegment, h⟩ := h
  simp only [parseStatement, Option.bind_eq_bind, Option.bind_eq_some_iff] at h
  obtain ⟨⟨name, rest⟩, hhead, ⟨body, tail⟩, hbody, heq⟩ := h
  cases heq
  exact ⟨segment, name, rest, body, tail, hsegment, hhead, hbody, rfl, rfl, rfl, rfl⟩

end CodeIndex.Sql
