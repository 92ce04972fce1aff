import CodeIndex.Text.Distance

/-!
# The edit distance

An edit puts one character in, takes one out or replaces one, anywhere in a text.  The distance of
two texts is the least number of edits that turn the first into the second.  The table behind
`distance` is filled row by row from the front of both texts, so its entries are read here as
values of one recursion, `cost`, on the two fronts with their last character first.

* `edits_cost` : so many edits do.
* `cost_le_of_edits` : fewer do not, for one edit changes the cost by one at most.
* `distance_eq_cost` : the last entry of the last row is the cost for the two texts.
* `isDistance_iff` : `distance` is the least number of edits.
-/

namespace CodeIndex.Text

/-- One character is put in, taken out or replaced. -/
inductive Edit : List Char → List Char → Prop
  | insert (front back : List Char) (c : Char) : Edit (front ++ back) (front ++ c :: back)
  | delete (front back : List Char) (c : Char) : Edit (front ++ c :: back) (front ++ back)
  | replace (front back : List Char) (c d : Char) :
      Edit (front ++ c :: back) (front ++ d :: back)

/-- So many edits lead from one text to another. -/
inductive Edits : Nat → List Char → List Char → Prop
  | refl (a : List Char) : Edits 0 a a
  | step {n : Nat} {a b c : List Char} : Edits n a b → Edit b c → Edits (n + 1) a c

/-- `n` is the least number of edits that lead from `a` to `b`. -/
structure IsDistance (a b : List Char) (n : Nat) : Prop where
  edits : Edits n a b
  least : ∀ m, Edits m a b → n ≤ m

variable {a b c : List Char} {m n : Nat}

/-! ## Edits -/

/-- An edit is one edit. -/
theorem Edit.single (h : Edit a b) : Edits 1 a b := .step (.refl a) h

/-- Edits one after the other add up. -/
theorem Edits.trans (hab : Edits m a b) (hbc : Edits n b c) : Edits (m + n) a c := by
  induction hbc with
  | refl => exact hab
  | step _ hedit ih => exact (ih hab).step hedit

/-- An edit may also come first. -/
theorem Edit.then (hab : Edit a b) (hbc : Edits n b c) : Edits (n + 1) a c := by
  rw [Nat.add_comm]
  exact hab.single.trans hbc

/-- An edit can be made behind a character. -/
theorem Edit.cons (h : Edit a b) (x : Char) : Edit (x :: a) (x :: b) := by
  cases h with
  | insert front back c => exact .insert (x :: front) back c
  | delete front back c => exact .delete (x :: front) back c
  | replace front back c d => exact .replace (x :: front) back c d

/-- Edits can be made behind a character. -/
theorem Edits.cons (h : Edits n a b) (x : Char) : Edits n (x :: a) (x :: b) := by
  induction h with
  | refl a => exact .refl (x :: a)
  | step _ hedit ih => exact .step ih (hedit.cons x)

/-- An edit can be made from the other end. -/
theorem Edit.reverse (h : Edit a b) : Edit a.reverse b.reverse := by
  cases h with
  | insert front back c => simpa using Edit.insert back.reverse front.reverse c
  | delete front back c => simpa using Edit.delete back.reverse front.reverse c
  | replace front back c d => simpa using Edit.replace back.reverse front.reverse c d

/-- Edits can be made from the other end. -/
theorem Edits.reverse (h : Edits n a b) : Edits n a.reverse b.reverse := by
  induction h with
  | refl a => exact .refl a.reverse
  | step _ hedit ih => exact .step ih hedit.reverse

/-- Read from the back, texts are as far apart as read from the front. -/
theorem edits_reverse_iff : Edits n a.reverse b.reverse ↔ Edits n a b := by
  constructor
  · intro h
    simpa using h.reverse
  · exact Edits.reverse

/-! ## The cost of turning one text into another -/

/-- The number of edits between two texts: their first characters are kept if they agree, else
one of them is replaced, taken out or put in, whichever leaves the least to do. -/
def cost : List Char → List Char → Nat
  | [], b => b.length
  | a, [] => a.length
  | x :: a, y :: b =>
    min (if x = y then cost a b else cost a b + 1) (min (cost a (y :: b) + 1) (cost (x :: a) b + 1))

/-- Every character of the other text is put in. -/
theorem cost_nil_left (b : List Char) : cost [] b = b.length := by
  rw [cost]

/-- Every character of the text is taken out. -/
theorem cost_nil_right (a : List Char) : cost a [] = a.length := by
  cases a with
  | nil => rw [cost]
  | cons x a =>
      rw [cost]
      exact List.cons_ne_nil x a

/-- The cost by the first characters. -/
theorem cost_cons_cons (x y : Char) (a b : List Char) : cost (x :: a) (y :: b)
    = min (if x = y then cost a b else cost a b + 1)
        (min (cost a (y :: b) + 1) (cost (x :: a) b + 1)) := by
  rw [cost]

/-- A text is turned into itself for nothing. -/
theorem cost_self (a : List Char) : cost a a = 0 := by
  induction a with
  | nil => rw [cost_nil_left, List.length_nil]
  | cons x a ih =>
      rw [cost_cons_cons, if_pos rfl, ih]
      exact Nat.zero_min _

/-- One more character in front of the first text costs one edit at most. -/
theorem cost_cons_left_le (x : Char) (a b : List Char) : cost (x :: a) b ≤ cost a b + 1 := by
  cases b with
  | nil => simp [cost_nil_right]
  | cons y b =>
      rw [cost_cons_cons]
      omega

/-- One more character in front of the second text costs one edit at most. -/
theorem cost_cons_right_le (y : Char) (a b : List Char) : cost a (y :: b) ≤ cost a b + 1 := by
  cases a with
  | nil => simp [cost_nil_left]
  | cons x a =>
      rw [cost_cons_cons]
      omega

/-- What is done first: the first character is kept, replaced, taken out or put in. -/
theorem cost_cases (x y : Char) (a b : List Char) :
    (x = y ∧ cost (x :: a) (y :: b) = cost a b) ∨
      cost (x :: a) (y :: b) = cost a b + 1 ∨
      cost (x :: a) (y :: b) = cost a (y :: b) + 1 ∨
      cost (x :: a) (y :: b) = cost (x :: a) b + 1 := by
  rw [cost_cons_cons]
  by_cases hxy : x = y
  · rw [if_pos hxy]
    simp only [hxy, true_and]
    omega
  · rw [if_neg hxy]
    simp only [hxy, false_and, false_or]
    omega

/-- So many edits lead from one text to the other. -/
theorem edits_cost (a b : List Char) : Edits (cost a b) a b := by
  induction a generalizing b with
  | nil =>
      rw [cost_nil_left]
      induction b with
      | nil => exact .refl []
      | cons y b ih => exact ih.step (.insert [] b y)
  | cons x a iha =>
      induction b with
      | nil =>
          have hrest := iha []
          rw [cost_nil_right] at *
          exact (Edit.delete [] a x).then hrest
      | cons y b ihb =>
          rcases cost_cases x y a b with ⟨rfl, hcost⟩ | hcost | hcost | hcost <;> rw [hcost]
          · exact (iha b).cons x
          · exact ((iha b).cons x).step (.replace [] b x y)
          · exact (Edit.delete [] a x).then (iha (y :: b))
          · exact ihb.step (.insert [] b y)

/-! ## One edit changes the cost by one -/

/-- A target with one character less costs at most one edit more. -/
theorem cost_delete_le (y : Char) (a b : List Char) : cost a b ≤ cost a (y :: b) + 1 := by
  induction a with
  | nil =>
      rw [cost_nil_left, cost_nil_left, List.length_cons]
      omega
  | cons x a ih =>
      have hdrop := cost_cons_left_le x a b
      rw [cost_cons_cons]
      split <;> omega

/-- A target with one other character costs at most one edit more. -/
theorem cost_replace_le (y z : Char) (a b : List Char) : cost a (z :: b) ≤ cost a (y :: b) + 1 := by
  induction a with
  | nil => simp [cost_nil_left]
  | cons x a ih =>
      rw [cost_cons_cons, cost_cons_cons]
      split <;> split <;> omega

/-- What holds of two texts behind every first text holds behind a common front. -/
theorem cost_append_le {b c : List Char} (h : ∀ a, cost a c ≤ cost a b + 1) (front a : List Char) :
    cost a (front ++ c) ≤ cost a (front ++ b) + 1 := by
  induction front generalizing a with
  | nil => exact h a
  | cons y front ih =>
      induction a with
      | nil =>
          have hfront := ih []
          simp only [cost_nil_left, List.cons_append, List.length_cons] at *
          omega
      | cons x a iha =>
          have hdiag := ih a
          have hleft := ih (x :: a)
          simp only [List.cons_append] at *
          rw [cost_cons_cons, cost_cons_cons]
          split <;> omega

/-- An edit of the target costs at most one more. -/
theorem cost_edit_le (h : Edit b c) (a : List Char) : cost a c ≤ cost a b + 1 := by
  cases h with
  | insert front back c => exact cost_append_le (cost_cons_right_le c · back) front a
  | delete front back c => exact cost_append_le (cost_delete_le c · back) front a
  | replace front back c d => exact cost_append_le (cost_replace_le c d · back) front a

/-- No run of edits is shorter than the cost. -/
theorem cost_le_of_edits (h : Edits n a b) : cost a b ≤ n := by
  induction h with
  | refl a => exact Nat.le_of_eq (cost_self a)
  | step _ hedit ih => exact Nat.le_trans (cost_edit_le hedit _) (Nat.succ_le_succ ih)

/-! ## The table -/

/-- The entries of a row behind its first one: the costs up to longer and longer fronts of the
second text, of which `q` is read and `bs` is left. -/
def rowFrom (p q : List Char) : List Char → List Nat
  | [] => []
  | b :: bs => cost p (b :: q) :: rowFrom p (b :: q) bs

/-- The first row counts the characters of the second text. -/
theorem rowFrom_nil (q bs : List Char) :
    rowFrom [] q bs = List.range' (q.length + 1) bs.length := by
  induction bs generalizing q with
  | nil => rfl
  | cons b bs ih =>
      rw [rowFrom, cost_nil_left, ih, List.length_cons, List.length_cons, List.range'_succ]

/-- Each row is computed from the one above. -/
theorem distanceRow_rowFrom (a : Char) (p q bs : List Char) :
    distanceRow a (cost p q) (cost (a :: p) q) bs (rowFrom p q bs) = rowFrom (a :: p) q bs := by
  induction bs generalizing q with
  | nil => rfl
  | cons b bs ih =>
      have hentry := cost_cons_cons a b p q
      rw [rowFrom, rowFrom, distanceRow, ← hentry, ih]

/-- The rows of the table hold the costs of the texts read so far. -/
theorem distanceRows_rowFrom (target p source : List Char) :
    distanceRows target p.length (cost p [] :: rowFrom p [] target) source
      = cost (source.reverse ++ p) [] :: rowFrom (source.reverse ++ p) [] target := by
  induction source generalizing p with
  | nil => rfl
  | cons a source ih =>
      have hfirst : p.length + 1 = cost (a :: p) [] := by rw [cost_nil_right, List.length_cons]
      have hrow : (p.length + 1) :: distanceRow a (cost p []) (p.length + 1) target
          (rowFrom p [] target) = cost (a :: p) [] :: rowFrom (a :: p) [] target := by
        rw [hfirst, distanceRow_rowFrom]
      have hrest := ih (a :: p)
      rw [distanceRows, hrow, List.reverse_cons, List.append_assoc, List.singleton_append]
      exact hrest

/-- The last entry of a row is the cost to the whole target. -/
theorem getLast?_rowFrom (p q bs : List Char) :
    (cost p q :: rowFrom p q bs).getLast? = some (cost p (bs.reverse ++ q)) := by
  induction bs generalizing q with
  | nil => rfl
  | cons b bs ih =>
      rw [rowFrom, List.getLast?_cons_cons, ih, List.reverse_cons, List.append_assoc,
        List.singleton_append]

/-- The last entry of the last row is the cost for the two texts, read from the back. -/
theorem distance_eq_cost (source target : List Char) :
    distance source target = cost source.reverse target.reverse := by
  have hfirst : List.range (target.length + 1) = cost [] [] :: rowFrom [] [] target := by
    rw [rowFrom_nil, cost_self, List.range_eq_range', List.range'_succ]
    rfl
  have hrows := distanceRows_rowFrom target [] source
  rw [List.length_nil, ← hfirst] at hrows
  rw [distance, hrows, getLast?_rowFrom, Option.getD_some, List.append_nil, List.append_nil]

/-- **The distance of two texts is the least number of edits between them.** -/
theorem isDistance_iff {source target : List Char} :
    IsDistance source target n ↔ n = distance source target := by
  have hleast : IsDistance source target (distance source target) := by
    rw [distance_eq_cost]
    constructor
    · exact edits_reverse_iff.mp (edits_cost _ _)
    · intro m hm
      exact cost_le_of_edits (edits_reverse_iff.mpr hm)
  constructor
  · intro h
    exact Nat.le_antisymm (h.least _ hleast.edits) (hleast.least _ h.edits)
  · rintro rfl
    exact hleast

end CodeIndex.Text
