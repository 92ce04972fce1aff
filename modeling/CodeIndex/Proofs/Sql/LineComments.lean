import CodeIndex.Proofs.Sql.CommentStep
import CodeIndex.Proofs.Sql.SpacingTable

/-!
# Line comments that stand first on their line

A line comment is removed where nothing but blanks and block comments stands in front of it on
its line, and only there: behind other text two dashes are text.  Block comments are removed
before, so one that opens in a line comment may close on a later line and take what lies between
along.  `Uncommented` relates a script to what is left when comments are deleted that are not of
these two kinds.

The blanks and blank lines in front of a comment go with it, so deleting the comment alone leaves
them.  Nothing else of a table depends on them, but a default in parentheses may.

* `cutLines` : comments deleted and the blanks in front of them kept, as one pass over a script.
* `Uncommented.cutLines_eq` : deleting comments does not change the outcome of that pass.
* `squeeze_dropLines` : nor does it matter, up to layout, whether blanks go with a comment.
* `parseTables_uncommented` : deleting comments changes at most the layout of the texts of a
  table, and nothing when these hold no line break.
-/

namespace CodeIndex.Sql

open Text

/-- Where in its line a character stands. -/
inductive Place where
  /-- Behind blanks and block comments only. -/
  | margin
  /-- Behind other text. -/
  | text
  /-- In a comment. -/
  | comment
  deriving DecidableEq, Repr

/-- The place behind a character that is no part of a comment. -/
def Place.next (place : Place) (c : Char) : Place :=
  if c = '\n' then .margin
  else if place = .margin && isBlank c then .margin
  else .text

/-- No character alone opens a comment. -/
theorem Place.next_ne_comment (place : Place) (c : Char) : place.next c ≠ .comment := by
  unfold Place.next
  split
  · simp
  · split <;> simp

/-- A block comment opens here, and is closed. -/
def OpensBlock (cs : List Char) : Prop :=
  ∃ rest, cs = '/' :: '*' :: rest ∧ contains ['*', '/'] rest = true

/-- The body of a block comment: the comment is closed behind it and no earlier. -/
def IsBlockBody (body : List Char) : Prop := contains ['*', '/'] (body ++ ['*']) = false

/-- A block comment and what follows it. -/
def blockThen (body rest : List Char) : List Char := '/' :: '*' :: (body ++ '*' :: '/' :: rest)

/-- **A script and what is left of it** when some line comments are deleted that stand first on
their line.  A block comment that opens in a deleted comment closes in it. -/
inductive Uncommented : Place → List Char → List Char → Prop
  | nil {place : Place} : Uncommented place [] []
  | char {place : Place} {c : Char} {s t : List Char} (hplace : place ≠ .comment)
      (hopens : ¬ OpensBlock (c :: s)) (h : Uncommented (place.next c) s t) :
      Uncommented place (c :: s) (c :: t)
  | block {place : Place} {body s t : List Char} (hplace : place ≠ .comment)
      (hbody : IsBlockBody body) (h : Uncommented place s t) :
      Uncommented place (blockThen body s) (blockThen body t)
  | opens {s t : List Char} (h : Uncommented .comment s t) :
      Uncommented .margin ('-' :: '-' :: s) t
  | commentChar {c : Char} {s t : List Char} (hc : c ≠ '\n') (hopens : ¬ OpensBlock (c :: s))
      (h : Uncommented .comment s t) : Uncommented .comment (c :: s) t
  | commentBlock {body s t : List Char} (hbody : IsBlockBody body) (hline : '\n' ∉ body)
      (h : Uncommented .comment s t) : Uncommented .comment (blockThen body s) t
  | ends {s t : List Char} (h : Uncommented .margin s t) :
      Uncommented .comment ('\n' :: s) ('\n' :: t)

/-- Delete the line comments that stand first on their line, and no blanks. -/
def cutLines (place : Place) : List Char → List Char
  | [] => []
  | c :: rest =>
    if c = '\n' then c :: cutLines .margin rest
    else
      match place with
      | .comment => cutLines .comment rest
      | .text => c :: cutLines .text rest
      | .margin =>
        if isBlank c then c :: cutLines .margin rest
        else if startsWith ['-', '-'] (c :: rest) then cutLines .comment rest
        else c :: cutLines .text rest

/-! ## Block comments -/

/-- A block that is closed holds the closing mark. -/
theorem contains_close (body rest : List Char) :
    contains ['*', '/'] (body ++ '*' :: '/' :: rest) = true :=
  contains_append body rfl

/-- A block holds the closing mark, with the text behind it too. -/
theorem contains_blockThen (body rest : List Char) :
    contains ['*', '/'] (blockThen body rest) = true :=
  contains_cons _ (contains_cons _ (contains_close body rest))

/-- A character that opens no block comment is kept. -/
theorem dropBlocks_cons {c : Char} {cs : List Char} (h : ¬ OpensBlock (c :: cs)) :
    dropBlocks (c :: cs) = c :: dropBlocks cs := by
  unfold dropBlocks
  by_cases hstar : c = '*' ∧ cs.head? = some '/'
  · obtain ⟨rfl, hhead⟩ := hstar
    obtain ⟨rest, rfl⟩ := exists_cons_of_head? hhead
    rw [dropBlocksFrom]
    rfl
  · by_cases hslash : c = '/' ∧ cs.head? = some '*'
    · obtain ⟨rfl, hhead⟩ := hslash
      obtain ⟨rest, rfl⟩ := exists_cons_of_head? hhead
      have hopen : ¬ contains ['*', '/'] rest = true := fun hclosed => h ⟨rest, rfl, hclosed⟩
      rw [dropBlocksFrom, if_neg (by simp), if_neg hopen]
    · exact dropBlocksFrom_cons false (fun hc hhead => hstar ⟨hc, hhead⟩)
        (fun hc hhead => hslash ⟨hc, hhead⟩)

/-- Inside a block comment every character goes that does not close it. -/
theorem dropBlocksFrom_true_cons {c : Char} {cs : List Char}
    (h : c = '*' → cs.head? ≠ some '/') :
    dropBlocksFrom true (c :: cs) = dropBlocksFrom true cs := by
  by_cases hslash : c = '/' ∧ cs.head? = some '*'
  · obtain ⟨rfl, hhead⟩ := hslash
    obtain ⟨rest, rfl⟩ := exists_cons_of_head? hhead
    rw [dropBlocksFrom]
    rfl
  · exact dropBlocksFrom_cons true h fun hc hhead => hslash ⟨hc, hhead⟩

/-- A block comment is removed. -/
theorem dropBlocks_block {body : List Char} (h : IsBlockBody body) (rest : List Char) :
    dropBlocks (blockThen body rest) = dropBlocks rest := by
  have hinside : ∀ body, IsBlockBody body →
      dropBlocksFrom true (body ++ '*' :: '/' :: rest) = dropBlocksFrom false rest := by
    intro body
    induction body with
    | nil => exact fun _ => by simp [dropBlocksFrom]
    | cons c body ih =>
        intro hbody
        rw [IsBlockBody, List.cons_append, contains, Bool.or_eq_false_iff] at hbody
        rw [List.cons_append, dropBlocksFrom_true_cons, ih hbody.2]
        rintro rfl hhead
        cases body with
        | nil => simp at hhead
        | cons d body =>
            have hd : d = '/' := by simpa using hhead
            simp [startsWith, hd] at hbody
  rw [dropBlocks, blockThen, dropBlocksFrom, if_neg (by simp), if_pos (contains_close body rest)]
  exact hinside body h

/-! ## Deleting comments -/

namespace Uncommented

variable {place : Place} {s t : List Char}

/-- Text without comment marks is kept. -/
theorem run {w : List Char} (hw : ∀ c ∈ w, c ≠ '/') (hplace : place ≠ .comment)
    (h : Uncommented (w.foldl Place.next place) s t) : Uncommented place (w ++ s) (w ++ t) := by
  induction w generalizing place with
  | nil => exact h
  | cons c w ih =>
      have hopens : ¬ OpensBlock (c :: (w ++ s)) := by
        rintro ⟨rest, heq, -⟩
        exact hw c List.mem_cons_self (List.cons.inj heq).1
      have hnext := place.next_ne_comment c
      exact .char hplace hopens (ih (fun d hd => hw d (List.mem_cons_of_mem _ hd)) hnext h)

/-- A comment without marks of block comments is deleted. -/
theorem body {w : List Char} (hw : ∀ c ∈ w, c ≠ '/' ∧ c ≠ '\n') (h : Uncommented .comment s t) :
    Uncommented .comment (w ++ s) t := by
  induction w with
  | nil => exact h
  | cons c w ih =>
      have hc := hw c List.mem_cons_self
      have hopens : ¬ OpensBlock (c :: (w ++ s)) := by
        rintro ⟨rest, heq, -⟩
        exact hc.1 (List.cons.inj heq).1
      exact .commentChar hc.2 hopens (ih fun d hd => hw d (List.mem_cons_of_mem _ hd))

/-- In the text both start with the same character. -/
theorem head?_eq (h : Uncommented .text s t) : s.head? = t.head? := by
  cases h <;> rfl

/-- Deleting comments closes no block comment. -/
theorem contains_close (h : Uncommented place s t) (ht : contains ['*', '/'] t = true) :
    contains ['*', '/'] s = true := by
  induction h with
  | nil => exact ht
  | @char place c s t hplace hopens h ih =>
      rw [contains, Bool.or_eq_true] at ht
      rcases ht with hstart | ht
      · have hc : c = '*' ∧ t.head? = some '/' := by
          cases t with
          | nil => simp [startsWith] at hstart
          | cons d t =>
              simp only [startsWith, List.isPrefixOf, Bool.and_true, Bool.and_eq_true,
                beq_iff_eq] at hstart
              exact ⟨hstart.1.symm, by rw [hstart.2]; rfl⟩
        obtain ⟨rfl, hhead⟩ := hc
        have htext : place.next '*' = .text := by
          simp [Place.next, show isBlank '*' = false by decide]
        rw [htext] at h
        rw [← h.head?_eq] at hhead
        obtain ⟨rest, rfl⟩ := exists_cons_of_head? hhead
        rfl
      · exact contains_cons c (ih ht)
  | block hplace hbody h ih => exact contains_blockThen _ _
  | opens h ih => exact contains_cons _ (contains_cons _ (ih ht))
  | commentChar hc hopens h ih => exact contains_cons _ (ih ht)
  | commentBlock hbody hline h ih => exact contains_blockThen _ _
  | ends h ih =>
      rw [contains, Bool.or_eq_true] at ht
      rcases ht with hstart | ht
      · simp [startsWith] at hstart
      · exact contains_cons _ (ih ht)

/-- Deleting comments opens no block comment. -/
theorem not_opensBlock {c : Char} (h : Uncommented (place.next c) s t)
    (hs : ¬ OpensBlock (c :: s)) : ¬ OpensBlock (c :: t) := by
  rintro ⟨rest, heq, hclosed⟩
  obtain ⟨rfl, rfl⟩ := List.cons.inj heq
  have htext : place.next '/' = .text := by
    simp [Place.next, show isBlank '/' = false by decide]
  rw [htext] at h
  cases h with
  | char hplace hopens h => exact hs ⟨_, rfl, h.contains_close hclosed⟩

theorem head?_dropBlocks (h : Uncommented place s t) (hplace : place = .text) :
    (dropBlocks s).head? = (dropBlocks t).head? := by
  induction h with
  | nil => rfl
  | char hplace hopens h =>
      rw [dropBlocks_cons hopens, dropBlocks_cons (h.not_opensBlock hopens)]
      rfl
  | block _ hbody h ih => rw [dropBlocks_block hbody, dropBlocks_block hbody, ih hplace]
  | opens h => cases hplace
  | commentChar => cases hplace
  | commentBlock => cases hplace
  | ends => cases hplace

/-- The places a pass over the script may be at: the dashes of a comment that is kept put it in a
comment, too. -/
def Follows (passed place : Place) : Prop :=
  passed = place ∨ passed = .comment ∧ place = .text

/-- Only the margin passes into the margin. -/
theorem Follows.eq_margin {passed : Place} (h : Follows passed .margin) : passed = .margin := by
  rcases h with h | ⟨-, h⟩
  · exact h
  · cases h

/-- Only a comment passes into a comment. -/
theorem Follows.eq_comment {passed : Place} (h : Follows passed .comment) : passed = .comment := by
  rcases h with h | ⟨h, -⟩ <;> exact h

/-- **Deleting comments does not change what the pass leaves.** -/
theorem cutLines_eq (h : Uncommented place s t) {passed : Place} (hpassed : Follows passed place) :
    cutLines passed (dropBlocks s)
      = cutLines (if place = .comment then .margin else passed) (dropBlocks t) := by
  induction h generalizing passed with
  | nil => rfl
  | @char place c s t hplace hopens h ih =>
      rw [dropBlocks_cons hopens, dropBlocks_cons (h.not_opensBlock hopens), if_neg hplace]
      have hnext := place.next_ne_comment c
      simp only [if_neg hnext] at ih
      by_cases hline : c = '\n'
      · have hmargin : place.next c = .margin := by simp [Place.next, hline]
        simp only [cutLines, if_pos hline]
        rw [ih (.inl hmargin.symm)]
      · simp only [cutLines, if_neg hline]
        cases place with
        | comment => exact absurd rfl hplace
        | text =>
            have htext : Place.text.next c = .text := by simp [Place.next, hline]
            rcases hpassed with rfl | ⟨rfl, -⟩
            · simp only
              rw [ih (.inl htext.symm)]
            · exact ih (.inr ⟨rfl, htext⟩)
        | margin =>
            obtain rfl := hpassed.eq_margin
            by_cases hblank : isBlank c = true
            · have hmargin : Place.margin.next c = .margin := by simp [Place.next, hblank]
              simp only [if_pos hblank]
              rw [ih (.inl hmargin.symm)]
            · have htext : Place.margin.next c = .text := by simp [Place.next, hline, hblank]
              simp only [if_neg hblank, startsWith_pair, h.head?_dropBlocks htext]
              split
              · exact ih (.inr ⟨rfl, htext⟩)
              · rw [ih (.inl htext.symm)]
  | block hplace hbody h ih => rw [dropBlocks_block hbody, dropBlocks_block hbody, ih hpassed]
  | @opens s t h ih =>
      obtain rfl := hpassed.eq_margin
      have hfirst : ¬ OpensBlock ('-' :: '-' :: s) := by simp [OpensBlock]
      have hsecond : ¬ OpensBlock ('-' :: s) := by simp [OpensBlock]
      rw [dropBlocks_cons hfirst, dropBlocks_cons hsecond]
      exact ih (.inl rfl)
  | commentChar hc hopens h ih =>
      obtain rfl := hpassed.eq_comment
      rw [dropBlocks_cons hopens]
      simp only [cutLines, if_neg hc]
      exact ih (.inl rfl)
  | commentBlock hbody hline h ih => rw [dropBlocks_block hbody, ih hpassed]
  | @ends s t h ih =>
      have hbreak : ∀ u, ¬ OpensBlock ('\n' :: u) := by simp [OpensBlock]
      rw [dropBlocks_cons (hbreak s), dropBlocks_cons (hbreak t)]
      simp only [cutLines]
      exact congrArg _ (ih (.inl rfl))

end Uncommented

/-! ## The blanks in front of a comment -/

/-- Texts with one squeezed form keep it behind a character. -/
theorem squeeze_cons_congr (c : Char) {a b : List Char} (h : squeeze a = squeeze b) :
    squeeze (c :: a) = squeeze (c :: b) := by
  rw [squeeze_cons, squeeze_cons, h]

/-- A blank behind a line break is layout. -/
theorem squeeze_newline_blank {c : Char} (hc : isBlank c = true) (cs : List Char) :
    squeeze ('\n' :: c :: cs) = squeeze ('\n' :: cs) := by
  have htrim : ∀ u : List Char, squeeze ('\n' :: u) = '\n' :: squeeze (trimStart u) := by
    intro u
    rw [squeeze_cons, squeezeCons, if_pos rfl, trimStart_squeeze]
  rw [htrim, htrim, trimStart, List.dropWhile_cons_of_pos hc]
  rfl

/-- The removal of line comments and the pass that keeps the blanks in front of them leave the
same text up to layout, wherever in a line they stand. -/
structure Agree (cs : List Char) : Prop where
  start : squeeze ('\n' :: dropLinesFrom .start cs) = squeeze ('\n' :: cutLines .margin cs)
  lead : opensLineComment cs = true →
    squeeze ('\n' :: dropLinesFrom .lead cs) = squeeze ('\n' :: cutLines .margin cs)
  quiet : opensLineComment cs = false →
    squeeze (dropLinesFrom .within cs) = squeeze (cutLines .margin cs)
  within : squeeze (dropLinesFrom .within cs) = squeeze (cutLines .text cs)
  comment : squeeze (dropLinesFrom .comment cs) = squeeze (cutLines .comment cs)

namespace Agree

variable {c : Char} {cs : List Char}

/-- Nothing agrees with nothing. -/
theorem nil : Agree [] := ⟨rfl, fun _ => rfl, fun _ => rfl, rfl, rfl⟩

/-- What is kept of a line break and of what follows it. -/
theorem newline (h : Agree cs) : Agree ('\n' :: cs) := by
  have hblank : isBlank '\n' = true := by decide
  have hopens := opensLineComment_blank hblank cs
  have hcut : ∀ place, cutLines place ('\n' :: cs) = '\n' :: cutLines .margin cs := by
    intro place
    simp only [cutLines, if_pos]
  have hlead : opensLineComment cs = true → squeeze ('\n' :: dropLinesFrom .lead cs)
      = squeeze ('\n' :: cutLines .margin ('\n' :: cs)) := by
    intro ho
    rw [hcut, squeeze_newline_blank hblank]
    exact h.lead ho
  refine ⟨?_, ?_, fun _ => ?_, ?_, ?_⟩
  · rw [dropLinesFrom_start, hopens]
    by_cases ho : opensLineComment cs = true
    · rw [if_pos ho, if_pos hblank]
      exact hlead ho
    · have hline : ('\n' : Char) = '\n' := rfl
      rw [if_neg ho, if_pos hline, hcut]
      exact squeeze_cons_congr _ h.start
  · intro ho
    rw [dropLinesFrom_lead, if_pos hblank]
    exact hlead (hopens ▸ ho)
  · rw [dropLinesFrom_within, hcut]
    exact h.start
  · rw [dropLinesFrom_within, hcut]
    exact h.start
  · rw [dropLinesFrom_comment, hcut]
    exact h.start

/-- What is kept of another blank and of what follows it. -/
theorem blank (hc : isBlank c = true) (hline : c ≠ '\n') (h : Agree cs) : Agree (c :: cs) := by
  have hopens := opensLineComment_blank hc cs
  have hcut : cutLines .margin (c :: cs) = c :: cutLines .margin cs := by
    simp [cutLines, hline, hc]
  have hlead : opensLineComment cs = true → squeeze ('\n' :: dropLinesFrom .lead cs)
      = squeeze ('\n' :: cutLines .margin (c :: cs)) := by
    intro ho
    rw [hcut, squeeze_newline_blank hc]
    exact h.lead ho
  have hquiet : opensLineComment cs = false → squeeze (c :: dropLinesFrom .within cs)
      = squeeze (cutLines .margin (c :: cs)) := by
    intro ho
    rw [hcut]
    exact squeeze_cons_congr _ (h.quiet ho)
  refine ⟨?_, ?_, ?_, ?_, ?_⟩
  · rw [dropLinesFrom_start, hopens]
    by_cases ho : opensLineComment cs = true
    · rw [if_pos ho, if_pos hc]
      exact hlead ho
    · rw [if_neg ho, if_neg hline]
      exact squeeze_cons_congr _ (hquiet (by simpa using ho))
  · intro ho
    rw [dropLinesFrom_lead, if_pos hc]
    exact hlead (hopens ▸ ho)
  · intro ho
    rw [dropLinesFrom_within, if_neg hline]
    exact hquiet (hopens ▸ ho)
  · simp only [dropLinesFrom_within, cutLines, if_neg hline]
    exact squeeze_cons_congr _ h.within
  · simp only [dropLinesFrom_comment, cutLines, if_neg hline]
    exact h.comment

/-- What is kept of a character that is no blank and of what follows it. -/
theorem solid (hc : isBlank c = false) (h : Agree cs) : Agree (c :: cs) := by
  have hline : c ≠ '\n' := by
    rintro rfl
    exact absurd hc (by decide)
  have hblank : ¬ isBlank c = true := by simp [hc]
  have hopens := opensLineComment_of_not_blank hc cs
  have hcomment : opensLineComment (c :: cs) = true →
      squeeze (dropLinesFrom .comment cs) = squeeze (cutLines .margin (c :: cs)) := by
    intro ho
    rw [hopens] at ho
    simp only [cutLines, if_neg hline, if_neg hblank, if_pos ho]
    exact h.comment
  have hkept : opensLineComment (c :: cs) = false →
      squeeze (c :: dropLinesFrom .within cs) = squeeze (cutLines .margin (c :: cs)) := by
    intro ho
    rw [hopens] at ho
    simp only [cutLines, if_neg hline, if_neg hblank, ho]
    exact squeeze_cons_congr _ h.within
  refine ⟨?_, ?_, ?_, ?_, ?_⟩
  · rw [dropLinesFrom_start]
    by_cases ho : opensLineComment (c :: cs) = true
    · rw [if_pos ho, if_neg hblank]
      exact squeeze_cons_congr _ (hcomment ho)
    · rw [if_neg ho, if_neg hline]
      exact squeeze_cons_congr _ (hkept (by simpa using ho))
  · intro ho
    rw [dropLinesFrom_lead, if_neg hblank]
    exact squeeze_cons_congr _ (hcomment ho)
  · intro ho
    rw [dropLinesFrom_within, if_neg hline]
    exact hkept ho
  · simp only [dropLinesFrom_within, cutLines, if_neg hline]
    exact squeeze_cons_congr _ h.within
  · simp only [dropLinesFrom_comment, cutLines, if_neg hline]
    exact h.comment

end Agree

/-- Removing line comments leaves what the pass that keeps the blanks in front of them leaves. -/
theorem agree (cs : List Char) : Agree cs := by
  induction cs with
  | nil => exact .nil
  | cons c cs ih =>
      by_cases hline : c = '\n'
      · rw [hline]
        exact ih.newline
      · by_cases hc : isBlank c = true
        · exact ih.blank hc hline
        · exact ih.solid (by simpa using hc)

/-- **Up to layout it does not matter whether blanks go with a comment.** -/
theorem squeeze_dropLines (cs : List Char) :
    squeeze ('\n' :: dropLines cs) = squeeze ('\n' :: cutLines .margin cs) :=
  (agree cs).start

/-- **Line comments that stand first on their line can be deleted.**  The tables differ at most
in the layout of their texts, and are equal when these hold no line break. -/
theorem parseTables_uncommented (placeholder : String) {script left : String}
    (h : Uncommented .margin script.toList left.toList) :
    (parseTables placeholder script).map Table.squeezed
        = (parseTables placeholder left).map Table.squeezed ∧
      ((∀ table ∈ parseTables placeholder script, ∀ text ∈ table.texts, '\n' ∉ text.toList) →
        parseTables placeholder script = parseTables placeholder left) := by
  have hlayout : squeeze ('\n' :: dropComments script.toList)
      = squeeze ('\n' :: dropComments left.toList) :=
    calc squeeze ('\n' :: dropComments script.toList)
        = squeeze ('\n' :: cutLines .margin (dropBlocks script.toList)) := squeeze_dropLines _
      _ = squeeze ('\n' :: cutLines .margin (dropBlocks left.toList)) :=
          congrArg (fun cs => squeeze ('\n' :: cs)) (h.cutLines_eq (.inl rfl))
      _ = squeeze ('\n' :: dropComments left.toList) := (squeeze_dropLines _).symm
  have hmap := filterMap_parseStatement_congr placeholder hlayout
  refine ⟨hmap, fun htexts => ?_⟩
  exact eq_of_map_eq (fun table htable _ => Table.eq_of_squeezed (htexts table htable)) hmap

/-- A comment in front of a column, with a quote, a comma and a semicolon in it. -/
theorem parseTables_uncommented_column :
    Uncommented .margin "CREATE TABLE t (\n -- it's a, b;\n a int);".toList
        "CREATE TABLE t (\n \n a int);".toList ∧
      parseTables "#__" "CREATE TABLE t (\n -- it's a, b;\n a int);"
        = parseTables "#__" "CREATE TABLE t (\n \n a int);" := by
  have hscript : "CREATE TABLE t (\n -- it's a, b;\n a int);".toList
      = "CREATE TABLE t (\n ".toList ++ '-' :: '-' :: (" it's a, b;".toList
        ++ '\n' :: (" a int);".toList ++ [])) := by decide
  have hleft : "CREATE TABLE t (\n \n a int);".toList
      = "CREATE TABLE t (\n ".toList ++ '\n' :: (" a int);".toList ++ []) := by decide
  have hcolumn : Uncommented .margin (" a int);".toList ++ []) (" a int);".toList ++ []) :=
    .run (by decide) (by decide) .nil
  have h : Uncommented .margin "CREATE TABLE t (\n -- it's a, b;\n a int);".toList
      "CREATE TABLE t (\n \n a int);".toList :=
    (congrArg₂ (Uncommented .margin) hscript hleft).mpr
      (.run (by decide) (by decide) (.opens (.body (by decide) (.ends hcolumn))))
  exact ⟨h, (parseTables_uncommented "#__" h).2 (by decide +kernel)⟩

/-- **Other line comments cannot.**  Behind other text a comment is text.  A block comment that
opens in a line comment takes the lines up to its end along.  And the blanks in front of a comment
stay in a default where the comment took them along. -/
theorem parseTables_comment_ne :
    parseTables "#__" "CREATE TABLE t (a int, -- x, y\nb int);"
        ≠ parseTables "#__" "CREATE TABLE t (a int, \nb int);" ∧
      parseTables "#__" "-- /*\nCREATE TABLE t (a int);\n-- */"
        ≠ parseTables "#__" "\nCREATE TABLE t (a int);\n" ∧
      parseTables "#__" "CREATE TABLE t (a int DEFAULT (1\n -- x\n));"
        ≠ parseTables "#__" "CREATE TABLE t (a int DEFAULT (1\n \n));" := by
  decide +kernel

end CodeIndex.Sql
