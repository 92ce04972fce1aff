import CodeIndex.Proofs.Sql.Template

/-!
# Statements with holes

The head of a statement ends at its first parenthesis, so literals behind it play no part.  The
body is scanned with regard to quotes: a literal that is met outside quotes is passed over whole,
whatever its text is.  So the name of the table and the cut of the body into parts are those of
the statement with holes.

* `statementHead_append_open` : the head in front of the first parenthesis.
* `nextDepth` : one step of the scan for the end of a body.
* `bodyPieces_fill` : the parts of a body.
-/

namespace CodeIndex.Sql

open Text

variable {ι α : Type}

/-! ## Heads -/

/-- A reading gives an end of its text. -/
def Shortens (read : List Char → Option (List Char)) : Prop :=
  ∀ cs rest, read cs = some rest → rest <:+ cs

/-- Readers one after the other leave less. -/
theorem Shortens.bind {first second : List Char → Option (List Char)} (hfirst : Shortens first)
    (hsecond : Shortens second) : Shortens fun cs => (first cs).bind second := by
  intro cs rest h
  obtain ⟨mid, hmid, hrest⟩ := Option.bind_eq_some_iff.mp h
  exact (hsecond mid rest hrest).trans (hfirst cs mid hmid)

/-- A keyword leaves less. -/
theorem keyword_shortens (word : String) : Shortens (keyword word) := by
  intro cs rest h
  obtain ⟨text, -, rfl⟩ := afterLetters_eq_some_iff.mp h
  exact List.suffix_append text rest

/-- Blanks leave less. -/
theorem blanks_shortens : Shortens blanks := by
  intro cs rest h
  cases cs with
  | nil => cases h
  | cons c cs =>
      rw [blanks] at h
      split at h
      · rw [← Option.some.inj h]
        exact (List.dropWhile_suffix _).trans (List.suffix_cons c cs)
      · cases h

/-- A keyword does not reach over a character that is no word character. -/
theorem keyword_carries {word : String} (hword : IsKeyword word) {q : Char}
    (hq : isWordChar q = false) (rest : List Char) :
    Carries (· ++ q :: rest) (keyword word) (· ++ q :: rest) :=
  fun cs => keyword_append hword cs (by simp [isBoundary, hq])

/-- Trimming in front does not see what stands behind a mark. -/
theorem trimStart_append_stop {q : Char} (hq : isBlank q = false) (cs rest : List Char) :
    trimStart (cs ++ q :: rest) = trimStart cs ++ q :: rest := by
  by_cases hcs : trimStart cs = []
  · rw [trimStart_append_of_eq_nil hcs, hcs, trimStart_cons_of_not_blank hq]
    rfl
  · exact trimStart_append_of_ne_nil hcs _

/-- The reader for blanks does not see what stands behind a mark. -/
theorem blanks_carries {q : Char} (hq : isBlank q = false) (rest : List Char) :
    Carries (· ++ q :: rest) blanks (· ++ q :: rest) := by
  intro cs
  cases cs with
  | nil => simp [blanks, hq]
  | cons c cs =>
      by_cases hc : isBlank c = true
      · simp [blanks, hc, trimStart_append_stop hq]
      · simp [blanks, hc]

theorem optionalMark_append_stop {marks : List Char} {q : Char} {cs : List Char}
    (h : cs = [] → q ∉ marks) (rest : List Char) :
    optionalMark marks (cs ++ q :: rest) = optionalMark marks cs ++ q :: rest := by
  cases cs with
  | nil => simp [optionalMark, h rfl]
  | cons c cs =>
      rw [List.cons_append, optionalMark, optionalMark]
      split <;> rfl

/-- A character outside the class ends the run. -/
theorem takeWhile_append_cons {p : Char → Bool} {q : Char} (hq : p q = false)
    (cs rest : List Char) : (cs ++ q :: rest).takeWhile p = cs.takeWhile p := by
  induction cs with
  | nil => simp [hq]
  | cons c cs ih => simp only [List.cons_append, List.takeWhile_cons, ih]

/-- The rest behind the run goes on over that character. -/
theorem dropWhile_append_cons {p : Char → Bool} {q : Char} (hq : p q = false)
    (cs rest : List Char) : (cs ++ q :: rest).dropWhile p = cs.dropWhile p ++ q :: rest := by
  induction cs with
  | nil => simp [hq]
  | cons c cs ih =>
      simp only [List.cons_append, List.dropWhile_cons, ih]
      split <;> rfl

/-- The name of a table, if nothing stands between it and the parenthesis behind the text. -/
def bodyName (cs : List Char) : Option (List Char) :=
  (tableName cs).bind fun p =>
    if (trimStart (optionalMark ['\x60', '"', ']'] p.2)).isEmpty then some p.1 else none

/-- A table name is read in front of its body. -/
theorem tableName_carries (u : List Char) :
    Carries (· ++ '(' :: u) tableName (Prod.map id (· ++ '(' :: u)) := by
  have hstop : isTableNameChar '(' = false := by decide
  have hbare : Carries (· ++ '(' :: u) bareName (Prod.map id (· ++ '(' :: u)) := by
    intro rest
    simp only [bareName, takeWhile_append_cons hstop, dropWhile_append_cons hstop]
    cases rest.takeWhile isTableNameChar <;> rfl
  exact (hbare.comp fun cs => optionalMark_append_stop (fun _ => by decide) u).or hbare

/-- What is left behind an optional quote ends the text. -/
theorem optionalMark_suffix (marks cs : List Char) : optionalMark marks cs <:+ cs := by
  cases cs with
  | nil => exact List.suffix_refl _
  | cons c cs =>
      rw [optionalMark]
      split
      · exact List.suffix_cons c cs
      · exact List.suffix_refl _

/-- What is left behind a table name ends the text. -/
theorem tableName_suffix {cs name rest : List Char} (h : tableName cs = some (name, rest)) :
    rest <:+ cs := by
  have hbare : ∀ left, bareName left = some (name, rest) → rest <:+ left := by
    intro left hleft
    cases hrun : left.takeWhile isTableNameChar with
    | nil => simp [bareName, hrun] at hleft
    | cons c run =>
        rw [bareName, hrun, Option.some.injEq, Prod.mk.injEq] at hleft
        rw [← hleft.2]
        exact List.dropWhile_suffix _
  rw [tableName_eq, Option.or_eq_some_iff] at h
  rcases h with h | ⟨-, h⟩
  · exact (hbare _ h).trans (optionalMark_suffix _ cs)
  · exact hbare _ h

/-- A body is read behind a name at the first parenthesis. -/
theorem namedBody_append_open {cs : List Char} (hcs : '(' ∉ cs) (u : List Char) :
    namedBody (cs ++ '(' :: u) = (bodyName cs).map fun name => (name, u) := by
  rw [namedBody, bodyName, tableName_carries u cs]
  cases hname : tableName cs with
  | none => rfl
  | some p =>
      obtain ⟨name, rest⟩ := p
      have hsuffix : trimStart (optionalMark ['\x60', '"', ']'] rest) <:+ cs :=
        (List.dropWhile_suffix _).trans ((optionalMark_suffix _ rest).trans (tableName_suffix hname))
      simp only [Option.bind_eq_bind, Option.map_some, Option.bind_some, Prod.map_apply, id_eq]
      rw [optionalMark_append_stop (fun _ => by decide), trimStart_append_stop (by decide)]
      cases hrest : trimStart (optionalMark ['\x60', '"', ']'] rest) with
      | nil => simp [symbol]
      | cons c more =>
          have hc : c ≠ '(' := by
            rintro rfl
            exact hcs (hsuffix.subset (by rw [hrest]; exact List.mem_cons_self))
          simp [symbol, hc]

/-- The text behind the words `CREATE TABLE`. -/
def behindCreate (cs : List Char) : Option (List Char) :=
  (((keyword "CREATE" cs).bind blanks).bind (keyword "TABLE")).bind blanks

/-- The text behind the words `IF NOT EXISTS`. -/
def behindExists (cs : List Char) : Option (List Char) :=
  (((((keyword "IF" cs).bind blanks).bind (keyword "NOT")).bind blanks).bind
    (keyword "EXISTS")).bind blanks

/-- The name in the head of a statement, if the text ends where the parenthesis is to open. -/
def headName (cs : List Char) : Option (List Char) :=
  (behindCreate cs).bind fun rest => ((behindExists rest).bind bodyName).or (bodyName rest)

/-- The head of a statement, with `IF NOT EXISTS` or without. -/
theorem statementHead_eq (cs : List Char) : statementHead cs = (behindCreate cs).bind fun rest =>
    ((behindExists rest).bind namedBody).or (namedBody rest) := by
  simp only [statementHead, behindCreate, behindExists, Option.bind_eq_bind, Option.bind_assoc]

/-- **The head of a statement** is what stands in front of its first parenthesis. -/
theorem statementHead_append_open {cs : List Char} (hcs : '(' ∉ cs) (u : List Char) :
    statementHead (cs ++ '(' :: u) = (headName cs).map fun name => (name, u) := by
  have hword : isWordChar '(' = false := by decide
  have hblank : isBlank '(' = false := by decide
  have hcreate : Carries (· ++ '(' :: u) behindCreate (· ++ '(' :: u) :=
    (((keyword_carries (by decide) hword u).bind (blanks_carries hblank u)).bind
      (keyword_carries (by decide) hword u)).bind (blanks_carries hblank u)
  have hexists : Carries (· ++ '(' :: u) behindExists (· ++ '(' :: u) :=
    (((((keyword_carries (by decide) hword u).bind (blanks_carries hblank u)).bind
      (keyword_carries (by decide) hword u)).bind (blanks_carries hblank u)).bind
      (keyword_carries (by decide) hword u)).bind (blanks_carries hblank u)
  have hcreateSuffix : Shortens behindCreate :=
    (((keyword_shortens _).bind blanks_shortens).bind (keyword_shortens _)).bind blanks_shortens
  have hexistsSuffix : Shortens behindExists :=
    (((((keyword_shortens _).bind blanks_shortens).bind (keyword_shortens _)).bind
      blanks_shortens).bind (keyword_shortens _)).bind blanks_shortens
  rw [statementHead_eq, headName, hcreate cs]
  cases hrest : behindCreate cs with
  | none => rfl
  | some rest =>
      have hout : '(' ∉ rest := fun hmem => hcs ((hcreateSuffix cs rest hrest).subset hmem)
      simp only [Option.map_some, Option.bind_some]
      rw [hexists rest, namedBody_append_open hout]
      cases hmore : behindExists rest with
      | none => rfl
      | some more =>
          have hout' : '(' ∉ more := fun hmem => hout ((hexistsSuffix rest more hmore).subset hmem)
          simp only [Option.map_some, Option.bind_some]
          rw [namedBody_append_open hout']
          cases bodyName more <;> rfl

/-- What stands in front of the first parenthesis, if no literal does, and what follows it. -/
def splitOpen : List (Item ι) → Option (List Char × List (Item ι))
  | [] => none
  | .char c :: rest =>
    if c = '(' then some ([], rest) else (splitOpen rest).map fun p => (c :: p.1, p.2)
  | .literal _ _ :: _ => none

/-- A template is divided at its first parenthesis as its text is. -/
theorem splitOpen_spec {items rest : List (Item ι)} {name : List Char}
    (h : splitOpen items = some (name, rest)) (f : ι → List Char) :
    fill f items = name ++ '(' :: fill f rest ∧ '(' ∉ name ∧ rest ⊆ items := by
  induction items generalizing name with
  | nil => cases h
  | cons item items ih =>
      cases item with
      | char c =>
          rw [splitOpen] at h
          split at h
          · rename_i hc
            obtain ⟨rfl, rfl⟩ := Prod.mk.inj (Option.some.inj h)
            exact ⟨by rw [fill_char, hc]; rfl, by simp, List.subset_cons_self _ _⟩
          · rename_i hc
            obtain ⟨⟨left, rest'⟩, hsplit, heq⟩ := Option.map_eq_some_iff.mp h
            obtain ⟨rfl, rfl⟩ := Prod.mk.inj heq
            obtain ⟨hfill, hout, hsub⟩ := ih hsplit
            refine ⟨by rw [fill_char, hfill]; rfl, ?_, List.subset_cons_of_subset _ hsub⟩
            simp [Ne.symm hc, hout]
      | literal q i => cases h

/-! ## Bodies -/

/-- The depth behind a character of a body, or nothing when it closes the body. -/
def nextDepth (s : QuoteState) (depth : Nat) (c : Char) : Option Nat :=
  if s.structural c && c = '(' then some (depth + 1)
  else if s.structural c && c = ')' then if depth = 0 then none else some (depth - 1)
  else some depth

/-- Does a character of a body end a part? -/
def endsPart (s : QuoteState) (depth : Nat) (c : Char) : Bool :=
  s.structural c && c = ',' && depth = 0

/-- Put what a body starts with in front of its parts. -/
def putFront {α : Type} (ends : Bool) (a : α) (parts : List (List α)) : List (List α) :=
  if ends then [] :: parts else parts.modifyHead (a :: ·)

/-- The parts of a body before trimming, from the text behind its opening parenthesis. -/
def bodyPieces (s : QuoteState) (depth : Nat) (cs : List Char) : Option (List (List Char)) :=
  (closingParenFrom s depth cs).map fun p => piecesFrom s depth p.1

/-- The scan for the end of a body by the depth behind the character. -/
theorem closingParenFrom_cons (s : QuoteState) (depth : Nat) (c : Char) (cs : List Char) :
    closingParenFrom s depth (c :: cs) = (nextDepth s depth c).elim (some ([], cs)) fun next =>
      (closingParenFrom (s.step c) next cs).map (withFront [c]) := by
  by_cases hs : s.structural c = true
  · by_cases hopen : c = '('
    · subst hopen
      rw [closingParenFrom, if_pos hs, nextDepth, hs]
      rfl
    · by_cases hclose : c = ')'
      · subst hclose
        rw [closingParenFrom, if_pos hs, nextDepth, hs]
        by_cases hdepth : depth = 0
        · subst hdepth
          rfl
        · simp only [hdepth, if_false]
          rfl
      · rw [closingParenFrom_cons_other (.inr ⟨hopen, hclose⟩)]
        simp [nextDepth, hopen, hclose]
  · have hquiet : s.structural c = false := by simpa using hs
    rw [closingParenFrom_cons_other (.inl hquiet)]
    simp [nextDepth, hquiet]

/-- One character of a body: it closes the body, ends a part, or belongs to the first part. -/
theorem bodyPieces_cons (s : QuoteState) (depth : Nat) (c : Char) (cs : List Char) :
    bodyPieces s depth (c :: cs) = (nextDepth s depth c).elim (some [[]]) fun next =>
      (bodyPieces (s.step c) next cs).map (putFront (endsPart s depth c) c) := by
  have hclosing := closingParenFrom_cons s depth c cs
  unfold bodyPieces
  cases hnext : nextDepth s depth c with
  | none =>
      rw [hnext] at hclosing
      rw [hclosing]
      rfl
  | some next =>
      rw [hnext] at hclosing
      rw [hclosing, Option.elim_some, Option.map_map, Option.elim_some, Option.map_map]
      congr 1
      funext p
      have hdepth : next = (if s.structural c && c = '(' then depth + 1
          else if s.structural c && c = ')' then depth - 1 else depth) := by
        unfold nextDepth at hnext
        grind
      by_cases hends : endsPart s depth c = true
      · have hcut : (s.structural c && c = ',' && depth = 0) = true := hends
        have hsame : next = depth := by
          have hc : c = ',' := by simp_all
          simp [hdepth, hc]
        simp [withFront, putFront, hends, piecesFrom, hcut, hsame]
      · have hkeep : (s.structural c && c = ',' && depth = 0) = false := by
          simpa [endsPart] using hends
        simp only [Function.comp_apply, withFront, putFront, if_neg hends, List.singleton_append]
        rw [piecesFrom_cons _ hkeep, ← hdepth]

/-- Two texts put in front of the first part, one after the other. -/
theorem map_modifyHead_append (u v : List α) (found : Option (List (List α))) :
    (found.map (List.modifyHead (v ++ ·))).map (List.modifyHead (u ++ ·))
      = found.map (List.modifyHead (u ++ v ++ ·)) := by
  rw [Option.map_map]
  congr 1
  funext parts
  cases parts <;> simp

/-- A character inside quotes belongs to the first part. -/
theorem bodyPieces_quiet {s : QuoteState} {c : Char} (h : s.structural c = false) (depth : Nat)
    (cs : List Char) : bodyPieces s depth (c :: cs)
      = (bodyPieces (s.step c) depth cs).map (List.modifyHead ([c] ++ ·)) := by
  rw [bodyPieces_cons]
  simp only [nextDepth, endsPart, h, Bool.false_and, Bool.false_eq_true, if_false,
    Option.elim_some]
  rfl

/-- **The scan of a body passes over the text of a literal.** -/
theorem bodyPieces_escaped {q : Char} (hq : isQuote q = true) {body : List Char}
    (h : Escaped q body) (depth : Nat) (rest : List Char) :
    bodyPieces (.inside q) depth (body ++ q :: rest)
      = (bodyPieces .outside depth rest).map (List.modifyHead (body ++ [q] ++ ·)) := by
  induction h with
  | nil =>
      rw [List.nil_append, bodyPieces_quiet (QuoteState.structural_inside q q),
        QuoteState.step_close hq]
      rfl
  | @plain c body hquote hslash h ih =>
      rw [List.cons_append, bodyPieces_quiet (QuoteState.structural_inside q c),
        QuoteState.step_inside ⟨hquote, hslash⟩, ih, map_modifyHead_append]
      rfl
  | @slash c body h ih =>
      have hslash : (QuoteState.inside q).step '\\' = ⟨some q, true⟩ := rfl
      have hescaped : (QuoteState.mk (some q) true).step c = .inside q := rfl
      rw [List.cons_append, List.cons_append, bodyPieces_quiet (QuoteState.structural_inside q _),
        hslash, bodyPieces_quiet rfl, hescaped, ih, map_modifyHead_append, map_modifyHead_append]
      rfl
  | @doubled body h ih =>
      rw [List.cons_append, List.cons_append, bodyPieces_quiet (QuoteState.structural_inside q _),
        QuoteState.step_close hq, bodyPieces_quiet (QuoteState.structural_quote hq),
        QuoteState.step_quote hq, ih, map_modifyHead_append, map_modifyHead_append]
      rfl

/-- The parts of a body with holes before trimming. -/
def partsFrom (s : QuoteState) (depth : Nat) : List (Item ι) → Option (List (List (Item ι)))
  | [] => none
  | .char c :: rest => (nextDepth s depth c).elim (some [[]]) fun next =>
      (partsFrom (s.step c) next rest).map (putFront (endsPart s depth c) (.char c))
  | .literal q i :: rest => (partsFrom s depth rest).map (List.modifyHead (.literal q i :: ·))

/-- Every literal of a body is met outside quotes. -/
def MetOutside (s : QuoteState) (depth : Nat) : List (Item ι) → Prop
  | [] => True
  | .char c :: rest => ∀ next ∈ nextDepth s depth c, MetOutside (s.step c) next rest
  | .literal _ _ :: rest => s = .outside ∧ MetOutside s depth rest

instance MetOutside.decidable : (s : QuoteState) → (depth : Nat) → (items : List (Item ι)) →
    Decidable (MetOutside s depth items)
  | _, _, [] => instDecidableTrue
  | s, depth, .char c :: rest =>
    have := fun next => MetOutside.decidable (s.step c) next rest
    inferInstanceAs (Decidable (∀ next ∈ nextDepth s depth c, MetOutside (s.step c) next rest))
  | s, depth, .literal _ _ :: rest =>
    have := MetOutside.decidable s depth rest
    inferInstanceAs (Decidable (s = .outside ∧ MetOutside s depth rest))

/-- A character is put in front of the first piece. -/
theorem map_fill_putFront (f : ι → List Char) (ends : Bool) (c : Char)
    (parts : List (List (Item ι))) :
    (putFront ends (.char c) parts).map (fill f) = putFront ends c (parts.map (fill f)) := by
  cases ends with
  | true => rfl
  | false => cases parts <;> rfl

/-- **The parts of a body** are those of the body with holes, filled. -/
theorem bodyPieces_fill {f : ι → List Char} {items : List (Item ι)} (h : Fits f items)
    {s : QuoteState} {depth : Nat} (hmet : MetOutside s depth items) :
    bodyPieces s depth (fill f items) = (partsFrom s depth items).map (List.map (fill f)) := by
  induction items generalizing s depth with
  | nil => rfl
  | cons item rest ih =>
      cases item with
      | char c =>
          rw [MetOutside] at hmet
          rw [fill_char, bodyPieces_cons, partsFrom]
          cases hnext : nextDepth s depth c with
          | none => rfl
          | some next =>
              rw [Option.elim_some, Option.elim_some, ih h.cons (hmet next hnext), Option.map_map,
                Option.map_map]
              congr 1
              funext parts
              exact (map_fill_putFront f _ c parts).symm
      | literal q i =>
          obtain ⟨rfl, hmet⟩ := hmet
          have hq : isQuote q = true := by
            rcases h.literal.quote with rfl | rfl <;> rfl
          rw [fill_literal, bodyPieces_quiet (QuoteState.structural_quote hq),
            QuoteState.step_quote hq, bodyPieces_escaped hq h.literal.escaped, ih h.cons hmet,
            map_modifyHead_append, partsFrom, Option.map_map, Option.map_map]
          congr 1
          funext parts
          cases parts with
          | nil => rfl
          | cons part parts => simp

/-- The items put in front of parts are those of the text in front. -/
theorem mem_putFront {ends : Bool} {a : α} {parts : List (List α)} {part : List α}
    (h : part ∈ putFront ends a parts) : ∀ x ∈ part, x = a ∨ ∃ old ∈ parts, x ∈ old := by
  intro x hx
  cases ends with
  | true =>
      rcases List.mem_cons.mp h with rfl | hold
      · cases hx
      · exact .inr ⟨part, hold, hx⟩
  | false =>
      cases parts with
      | nil => cases h
      | cons old parts =>
          rcases List.mem_cons.mp h with rfl | hold
          · rcases List.mem_cons.mp hx with rfl | hx
            · exact .inl rfl
            · exact .inr ⟨old, List.mem_cons_self, hx⟩
          · exact .inr ⟨part, List.mem_cons_of_mem _ hold, hx⟩

/-- The parts of a body are made of its items. -/
theorem partsFrom_subset {s : QuoteState} {depth : Nat} {items : List (Item ι)}
    {parts : List (List (Item ι))} (h : partsFrom s depth items = some parts) :
    ∀ part ∈ parts, part ⊆ items := by
  have hfront : ∀ (ends : Bool) {item : Item ι} {rest : List (Item ι)} {found : List (List (Item ι))},
      (∀ part ∈ found, part ⊆ rest) → ∀ part ∈ putFront ends item found, part ⊆ item :: rest := by
    intro ends item rest found hfound part hpart x hx
    obtain rfl | ⟨old, hold, hx⟩ := mem_putFront hpart x hx
    · exact List.mem_cons_self
    · exact List.mem_cons_of_mem _ (hfound old hold hx)
  induction items generalizing s depth parts with
  | nil => cases h
  | cons item rest ih =>
      cases item with
      | char c =>
          rw [partsFrom] at h
          cases hnext : nextDepth s depth c with
          | none =>
              rw [hnext, Option.elim_none, Option.some.injEq] at h
              subst h
              simp
          | some next =>
              rw [hnext, Option.elim_some] at h
              obtain ⟨found, hfound, rfl⟩ := Option.map_eq_some_iff.mp h
              exact hfront _ (ih hfound)
      | literal q i =>
          obtain ⟨found, hfound, rfl⟩ := Option.map_eq_some_iff.mp h
          exact hfront false (ih hfound)

end CodeIndex.Sql
