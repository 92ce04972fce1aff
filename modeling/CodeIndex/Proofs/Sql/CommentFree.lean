import Mathlib.Data.List.Chain
import CodeIndex.Sql.Comment

/-!
# Scripts without comments

A script in which no two neighbouring characters open a comment passes through the removal
of comments as it is.  The property is one of neighbours, so for a text that is put together
it is a property of the parts and of the characters at the seams.

* `dropComments_eq_self` : without comment marks nothing is removed.
* `commentFree_iff` : neither mark occurs.
-/

namespace CodeIndex.Sql

open Text

/-- Do two neighbours open a comment? -/
def opensComment (a b : Char) : Bool := (a == '/' && b == '*') || (a == '-' && b == '-')

/-- No two neighbours open a comment. -/
def CommentFree (cs : List Char) : Prop := cs.IsChain fun a b => opensComment a b = false

instance (cs : List Char) : Decidable (CommentFree cs) :=
  inferInstanceAs (Decidable (cs.IsChain fun a b => opensComment a b = false))

/-- The empty script is free of comments. -/
@[simp] theorem commentFree_nil : CommentFree [] := List.isChain_nil

/-- One character opens no comment. -/
@[simp] theorem commentFree_singleton (a : Char) : CommentFree [a] := List.isChain_singleton a

/-- Freedom of comments, one pair of neighbours at a time. -/
theorem commentFree_cons_cons {a b : Char} {cs : List Char} :
    CommentFree (a :: b :: cs) ↔ opensComment a b = false ∧ CommentFree (b :: cs) :=
  List.isChain_cons_cons

/-- A script is free of comments when neither mark occurs in it. -/
theorem commentFree_iff {cs : List Char} :
    CommentFree cs ↔ contains ['/', '*'] cs = false ∧ contains ['-', '-'] cs = false := by
  induction cs with
  | nil => simp [contains]
  | cons a cs ih =>
      cases cs with
      | nil => simp [contains, startsWith, List.isPrefixOf]
      | cons b cs =>
          have hcons : ∀ x y, contains [x, y] (a :: b :: cs)
              = ((a == x && b == y) || contains [x, y] (b :: cs)) := by
            intro x y
            simp [contains, startsWith, List.isPrefixOf, beq_eq_decide, eq_comm]
          rw [commentFree_cons_cons, ih, hcons, hcons]
          simp only [opensComment, Bool.or_eq_false_iff]
          tauto

/-- What follows in a script that is free of comments is so too. -/
theorem CommentFree.of_append {a b : List Char} (h : CommentFree (a ++ b)) : CommentFree b :=
  (List.isChain_append.mp h).2.1

/-- Without block marks no block is removed. -/
theorem dropBlocks_eq_self {cs : List Char} (h : CommentFree cs) : dropBlocks cs = cs := by
  unfold dropBlocks
  induction cs with
  | nil => rfl
  | cons a cs ih =>
      have hrest : dropBlocksFrom false cs = cs := ih (h.of_append (a := [a]))
      unfold dropBlocksFrom
      split
      · rename_i heq
        cases heq
      · rename_i rest heq
        cases heq
        simp [hrest]
      · rename_i rest heq
        cases heq
        simp [commentFree_cons_cons, opensComment] at h
      · rename_i c rest _ _ heq
        cases heq
        simp [hrest]

/-- Without line marks no line comment opens. -/
theorem opensLineComment_eq_false {cs : List Char} (h : CommentFree cs) :
    opensLineComment cs = false := by
  obtain ⟨lead, hlead⟩ : trimStart cs <:+ cs := List.dropWhile_suffix _
  have htrim : CommentFree (trimStart cs) := by
    rw [← hlead] at h
    exact h.of_append
  unfold opensLineComment
  cases htext : trimStart cs with
  | nil => rfl
  | cons a rest =>
      rw [htext] at htrim
      cases rest with
      | nil => simp [startsWith, List.isPrefixOf]
      | cons b rest =>
          have hab := (commentFree_cons_cons.mp htrim).1
          simp only [opensComment, Bool.or_eq_false_iff] at hab
          simp only [startsWith, List.isPrefixOf, Bool.and_true, eq_comm (a := '-'),
            beq_eq_decide] at hab ⊢
          exact hab.2

/-- Without line marks no line is removed, at the start of a line or within it. -/
theorem dropLinesFrom_eq_self {cs : List Char} (h : CommentFree cs) {state : LineState}
    (hstate : state = .start ∨ state = .within) : dropLinesFrom state cs = cs := by
  induction cs generalizing state with
  | nil => rfl
  | cons c cs ih =>
      have hrest : ∀ next, (next = LineState.start ∨ next = .within) →
          dropLinesFrom next cs = cs := fun next hnext => ih (h.of_append (a := [c])) hnext
      have hkeep : dropLinesFrom (if c = '\n' then .start else .within) cs = cs := by
        apply hrest
        split <;> simp
      rcases hstate with rfl | rfl
      · show (if opensLineComment (c :: cs) then
            dropLinesFrom (if isBlank c then .lead else .comment) cs
          else c :: dropLinesFrom (if c = '\n' then .start else .within) cs) = c :: cs
        rw [opensLineComment_eq_false h, if_neg Bool.false_ne_true, hkeep]
      · show c :: dropLinesFrom (if c = '\n' then .start else .within) cs = c :: cs
        rw [hkeep]

/-- **Nothing to remove.**  A script without comment marks keeps every character. -/
theorem dropComments_eq_self {cs : List Char} (h : CommentFree cs) : dropComments cs = cs := by
  rw [dropComments, dropBlocks_eq_self h]
  exact dropLinesFrom_eq_self h (.inl rfl)

end CodeIndex.Sql
