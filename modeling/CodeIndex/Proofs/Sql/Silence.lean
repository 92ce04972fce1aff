import CodeIndex.Proofs.Sql.Piece

/-!
# Where a pattern does not start

A search finds the first place at which its pattern starts.  To know what it finds in a text
that is put together, it is enough to know of each part that the pattern does not start in
it, whatever part comes next.  A pattern that starts with a keyword starts in a part only if
the part holds the keyword, provided that no word runs on from the part into the next one.

* `search_of_silent` : a search passes over a part in which its pattern does not start.
* `silent_keyword_iff` : a word boundary behind a part keeps keywords inside it.
* `silent_phrase_iff` : the same for two words with blanks between them, unless the second
  word follows the part.
-/

namespace CodeIndex.Sql

open Text

variable {α β : Type}

/-- The pattern starts at no place of the first text when the second follows it. -/
def Silent (piece : List Char → Option α) : List Char → List Char → Prop
  | [], _ => True
  | c :: w, rest => piece (c :: (w ++ rest)) = none ∧ Silent piece w rest

/-- No pattern starts in the empty text. -/
@[simp] theorem silent_nil (piece : List Char → Option α) (rest : List Char) :
    Silent piece [] rest := trivial

/-- Silence, one place at a time. -/
@[simp] theorem silent_cons {piece : List Char → Option α} {c : Char} {w rest : List Char} :
    Silent piece (c :: w) rest ↔ piece (c :: (w ++ rest)) = none ∧ Silent piece w rest :=
  Iff.rfl

instance decidableSilent (piece : List Char → Option α) :
    (w rest : List Char) → Decidable (Silent piece w rest)
  | [], _ => isTrue trivial
  | c :: w, rest =>
    have := decidableSilent piece w rest
    inferInstanceAs (Decidable (piece (c :: (w ++ rest)) = none ∧ Silent piece w rest))

/-- Silence of two parts, the second being what follows the first. -/
theorem silent_append {piece : List Char → Option α} {u w rest : List Char} :
    Silent piece (u ++ w) rest ↔ Silent piece u (w ++ rest) ∧ Silent piece w rest := by
  induction u with
  | nil => simp
  | cons c u ih => simp [ih, and_assoc]

/-- A pattern that needs another one is silent where that one is. -/
theorem Silent.mono {piece : List Char → Option α} {needed : List Char → Option β}
    (himp : ∀ cs, needed cs = none → piece cs = none) {w rest : List Char}
    (h : Silent needed w rest) : Silent piece w rest := by
  induction w with
  | nil => trivial
  | cons c w ih => exact ⟨himp _ h.1, ih h.2⟩

/-- A pattern that needs one of two others is silent where both are. -/
theorem Silent.both {piece : List Char → Option α} {first second : List Char → Option β}
    (himp : ∀ cs, first cs = none → second cs = none → piece cs = none) {w rest : List Char}
    (hfirst : Silent first w rest) (hsecond : Silent second w rest) : Silent piece w rest := by
  induction w with
  | nil => trivial
  | cons c w ih => exact ⟨himp _ hfirst.1 hsecond.1, ih hfirst.2 hsecond.2⟩

/-- **Searches pass over silence.**  The search goes on behind the part, and the part counts
as skipped. -/
theorem search_of_silent {piece : List Char → Option α} {w rest : List Char}
    (h : Silent piece w rest) (before : Option Char) :
    search piece before (w ++ rest)
      = (search piece (w.getLast?.or before) rest).map fun (skipped, found) =>
          (w ++ skipped, found) := by
  induction w generalizing before with
  | nil => simp
  | cons c w ih =>
      have hlast : (c :: w).getLast?.or before = w.getLast?.or (some c) := by
        cases w with
        | nil => rfl
        | cons d w => simp [List.getLast?_cons]
      have hhere : (if isBoundary before then piece (c :: (w ++ rest)) else none) = none := by
        simp [h.1]
      rw [List.cons_append, search, hhere, ih h.2, hlast, Option.map_map]
      rfl

/-- A search in a text in which the pattern does not start finds nothing. -/
theorem search_eq_none {piece : List Char → Option α} {w : List Char}
    (h : Silent piece w []) (before : Option Char) : search piece before w = none := by
  have := search_of_silent h before
  rw [List.append_nil] at this
  rw [this]
  rfl

/-- A pattern that starts at a boundary is found there. -/
theorem search_of_some {piece : List Char → Option α} {before : Option Char} {c : Char}
    {rest : List Char} {found : α} (hbefore : isBoundary before = true)
    (h : piece (c :: rest) = some found) :
    search piece before (c :: rest) = some ([], found) := by
  simp [search, hbefore, h]

/-- A pattern behind a silent part and a space is found. -/
theorem search_behind_space {piece : List Char → Option α} {front : List Char} {c : Char}
    {rest : List Char} {found : α} (hfront : Silent piece front (' ' :: c :: rest))
    (hspace : piece (' ' :: c :: rest) = none) (hfound : piece (c :: rest) = some found) :
    search piece none (front ++ ' ' :: c :: rest) = some (front ++ [' '], found) := by
  have hsilent : Silent piece (front ++ [' ']) (c :: rest) :=
    silent_append.mpr ⟨hfront, hspace, trivial⟩
  have hbefore : isBoundary ((front ++ [' ']).getLast?.or none) = true := by
    rw [List.getLast?_concat]
    rfl
  rw [show front ++ ' ' :: c :: rest = (front ++ [' ']) ++ c :: rest by simp,
    search_of_silent hsilent, search_of_some hbefore hfound]
  simp

/-- A word boundary behind a part keeps keywords inside it. -/
theorem silent_keyword_iff {word : String} (hword : IsKeyword word) {w rest : List Char}
    (hrest : isBoundary rest.head? = true) :
    Silent (keyword word) w rest ↔ Silent (keyword word) w [] := by
  induction w with
  | nil => simp
  | cons c w ih =>
      rw [silent_cons, silent_cons, ih, ← List.cons_append, keyword_append hword _ hrest]
      simp

/-- A part that ends in a character outside words keeps keywords inside it, whatever comes
next. -/
theorem silent_keyword_concat {word : String} (hword : IsKeyword word) (hne : word.toList ≠ [])
    {w : List Char} (h : Silent (keyword word) w []) {d : Char} (hd : isWordChar d = false)
    (rest : List Char) : Silent (keyword word) (w ++ [d]) rest := by
  have hboundary : isBoundary ([d] ++ rest).head? = true := by simp [isBoundary, hd]
  have hend : keyword word (d :: ([] ++ rest)) = none := keyword_cons_of_not_word hword hne hd _
  exact silent_append.mpr ⟨(silent_keyword_iff hword hboundary).mpr h, hend, trivial⟩

/-- A word boundary behind a part keeps phrases inside it, unless the second word follows. -/
theorem silent_phrase_iff {first second : String} (hfirst : IsKeyword first)
    (hsecond : IsKeyword second) {w rest : List Char} (hrest : isBoundary rest.head? = true)
    (hnext : keyword second (trimStart rest) = none) :
    Silent (phrase first second) w rest ↔ Silent (phrase first second) w [] := by
  induction w with
  | nil => simp
  | cons c w ih =>
      rw [silent_cons, silent_cons, ih, ← List.cons_append,
        phrase_append hfirst hsecond _ hrest hnext]
      simp

/-- A run without blanks holds no two words with blanks between them. -/
theorem silent_phrase_of_no_blank {first second : String} {w : List Char}
    (hw : ∀ c ∈ w, isBlank c = false) : Silent (phrase first second) w [] := by
  induction w with
  | nil => trivial
  | cons c w ih =>
      refine ⟨?_, ih fun d hd => hw d (List.mem_cons_of_mem _ hd)⟩
      rw [List.append_nil]
      exact phrase_of_no_blank hw

end CodeIndex.Sql
