import CodeIndex.Proofs.Sql.Piece

/-!
# Comments, one character at a time

The removal of comments looks one character ahead for the marks of block comments, and over
blanks to the start of a line comment.  These are the equations of one step of it.

* `dropBlocksFrom_cons` : a character that is no part of a mark.
* `dropLinesFrom_cons` : a character at any place in a line.
-/

namespace CodeIndex.Sql

open Text

/-! ## Marks -/

/-- Does a text start with a mark of two characters? -/
theorem startsWith_pair (a b c : Char) (cs : List Char) :
    startsWith [a, b] (c :: cs) = (a == c && some b == cs.head?) := by
  cases cs <;> simp [startsWith, List.isPrefixOf]

/-- A part of a text is one with a character in front. -/
theorem contains_cons {word : List Char} (c : Char) {cs : List Char}
    (h : contains word cs = true) : contains word (c :: cs) = true := by
  rw [contains, h, Bool.or_true]

/-- A part of a text is one with more in front. -/
theorem contains_append {word : List Char} (a : List Char) {cs : List Char}
    (h : contains word cs = true) : contains word (a ++ cs) = true := by
  induction a with
  | nil => exact h
  | cons c a ih => exact contains_cons c ih

/-- Characters that are no part of a comment mark are kept outside a comment. -/
theorem dropBlocksFrom_cons (inside : Bool) {c : Char} {cs : List Char}
    (hclose : c = '*' → cs.head? ≠ some '/') (hopen : c = '/' → cs.head? ≠ some '*') :
    dropBlocksFrom inside (c :: cs)
      = if inside then dropBlocksFrom true cs else c :: dropBlocksFrom false cs := by
  rw [dropBlocksFrom.eq_4]
  · intro rest hc hcs
    exact hclose hc (by rw [hcs]; rfl)
  · intro rest hc hcs
    exact hopen hc (by rw [hcs]; rfl)

/-- A text with a first character is that and a rest. -/
theorem exists_cons_of_head? {c : Char} {cs : List Char} (h : cs.head? = some c) :
    ∃ rest, cs = c :: rest := by
  cases cs with
  | nil => cases h
  | cons d rest => exact ⟨rest, by rw [Option.some.inj h]⟩

/-! ## Lines -/

/-- Blanks may stand in front of a line comment. -/
theorem opensLineComment_blank {c : Char} (hc : isBlank c = true) (cs : List Char) :
    opensLineComment (c :: cs) = opensLineComment cs := by
  rw [opensLineComment, opensLineComment, trimStart, List.dropWhile_cons_of_pos hc]
  rfl

theorem opensLineComment_of_not_blank {c : Char} (hc : isBlank c = false) (cs : List Char) :
    opensLineComment (c :: cs) = startsWith ['-', '-'] (c :: cs) := by
  rw [opensLineComment, trimStart_cons_of_not_blank hc]

section Steps

variable (c : Char) (cs : List Char)

/-- One character, at any place in a line. -/
theorem dropLinesFrom_cons (state : LineState) : dropLinesFrom state (c :: cs)
    = match (motive := LineState → List Char) state with
      | .comment => if c = '\n' then c :: dropLinesFrom (if c = '\n' then .start else .within) cs
        else dropLinesFrom .comment cs
      | .lead => dropLinesFrom (if isBlank c then .lead else .comment) cs
      | .start =>
        if opensLineComment (c :: cs) then dropLinesFrom (if isBlank c then .lead else .comment) cs
        else c :: dropLinesFrom (if c = '\n' then .start else .within) cs
      | .within => c :: dropLinesFrom (if c = '\n' then .start else .within) cs := by
  rfl

/-- At the start of a line a comment may open. -/
theorem dropLinesFrom_start : dropLinesFrom .start (c :: cs)
    = if opensLineComment (c :: cs) then dropLinesFrom (if isBlank c then .lead else .comment) cs
      else c :: dropLinesFrom (if c = '\n' then .start else .within) cs :=
  dropLinesFrom_cons c cs .start

/-- The blanks in front of a comment are dropped with it. -/
theorem dropLinesFrom_lead : dropLinesFrom .lead (c :: cs)
    = dropLinesFrom (if isBlank c then .lead else .comment) cs :=
  dropLinesFrom_cons c cs .lead

/-- Within a line no comment opens. -/
theorem dropLinesFrom_within : dropLinesFrom .within (c :: cs)
    = c :: dropLinesFrom (if c = '\n' then .start else .within) cs :=
  dropLinesFrom_cons c cs .within

/-- A comment ends at the line break, which stays. -/
theorem dropLinesFrom_comment : dropLinesFrom .comment (c :: cs)
    = if c = '\n' then c :: dropLinesFrom (if c = '\n' then .start else .within) cs
      else dropLinesFrom .comment cs :=
  dropLinesFrom_cons c cs .comment

end Steps

end CodeIndex.Sql
