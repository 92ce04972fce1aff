import Mathlib.Data.List.Infix
import CodeIndex.Proofs.Text.Pieces
import CodeIndex.Proofs.Text.Trim
import CodeIndex.Render.Shown

/-!
# The part of a text that a budget keeps

A text over its budget of characters is cut at the last line end among its first characters, and
behind these characters if they hold none.  The character behind the last one allowed is not looked
at: a line that fills the budget to its last character ends there, but if an earlier line ends
inside the budget, the cut is made at that one.

* `wholeLines_kept` : the cut is at the last line end inside the budget.
* `kept_mono` : a larger budget keeps more.
* `keptAtOffsets?_eq` : the same part is cut out by byte offsets, at boundaries of characters.
* `wholeLines_kept_iff` : when the part kept is all whole lines that fit.
-/

namespace CodeIndex.Render

open Text

variable {budget : Nat} {cs before after : List Char}

/-! ## Line ends -/

/-- The longest beginning of the text with a line end behind it, among those of at most `limit`
characters. -/
structure WholeLines (limit : Nat) (cs front : List Char) : Prop where
  ends : front ++ ['\n'] <+: cs
  within : front.length ≤ limit
  longest : ∀ other, other ++ ['\n'] <+: cs → other.length ≤ limit → other.length ≤ front.length

/-- A line end stands behind the first `n` characters. -/
theorem ends_take_iff {n : Nat} (hn : n ≤ cs.length) :
    cs.take n ++ ['\n'] <+: cs ↔ cs[n]? = some '\n' := by
  constructor
  · rintro ⟨rest, hrest⟩
    have hlength : (cs.take n).length = n := List.length_take_of_le hn
    rw [← hrest, List.append_assoc, List.getElem?_append_right (by omega), hlength, Nat.sub_self]
    rfl
  · intro h
    refine ⟨cs.drop (n + 1), ?_⟩
    obtain ⟨hlt, hchar⟩ := List.getElem?_eq_some_iff.mp h
    rw [List.append_assoc, List.singleton_append, ← hchar, ← List.drop_eq_getElem_cons hlt,
      List.take_append_drop]

/-- A beginning with a line end behind it is found by its length. -/
theorem eq_take_of_ends {front : List Char} (h : front ++ ['\n'] <+: cs) :
    front = cs.take front.length ∧ cs[front.length]? = some '\n' := by
  obtain ⟨rest, rfl⟩ := h
  simp

/-- With a line break in the budget the text in front of the last one is kept. -/
theorem kept_of_newline (h : cs.take budget = before ++ '\n' :: after) (hafter : '\n' ∉ after) :
    kept budget cs = before := by
  have hsplit : splitLast? '\n' (cs.take budget) = some (before, after) :=
    splitLast?_eq_some_iff.mpr ⟨h, hafter⟩
  simp only [kept, hsplit]

/-- Without one the whole budget is kept. -/
theorem kept_of_no_newline (h : '\n' ∉ cs.take budget) : kept budget cs = cs.take budget := by
  have hsplit : splitLast? '\n' (cs.take budget) = none := splitLast?_eq_none_iff.mpr h
  simp only [kept, hsplit]

/-- A text with a line end has a last one. -/
theorem exists_last_newline (h : '\n' ∈ cs) :
    ∃ before after, cs = before ++ '\n' :: after ∧ '\n' ∉ after := by
  cases hsplit : splitLast? '\n' cs with
  | none => exact absurd h (splitLast?_eq_none_iff.mp hsplit)
  | some parts => exact ⟨parts.1, parts.2, splitLast?_eq_some_iff.mp hsplit⟩

/-- No line end stands further back than the last one. -/
theorem length_le_of_ends {other : List Char} (hafter : '\n' ∉ after)
    (h : other ++ ['\n'] <+: before ++ '\n' :: after) : other.length ≤ before.length := by
  by_contra hlong
  obtain ⟨rest, hrest⟩ := h
  have hmem : '\n' ∈ (before ++ '\n' :: after).drop (before.length + 1) := by
    rw [← hrest, List.append_assoc, List.drop_append_of_le_length (by omega)]
    simp
  rw [List.drop_append, Nat.add_sub_cancel_left,
    List.drop_eq_nil_of_le (Nat.le_succ _)] at hmem
  exact hafter hmem

/-- **The cut is at the last line end** among the characters that the budget allows. -/
theorem wholeLines_kept (h : '\n' ∈ cs.take budget) :
    WholeLines (budget - 1) cs (kept budget cs) := by
  obtain ⟨before, after, htake, hafter⟩ := exists_last_newline h
  have hlength := congrArg List.length htake
  rw [List.length_append, List.length_cons, List.length_take] at hlength
  rw [kept_of_newline htake hafter]
  constructor
  · have hhead : before ++ ['\n'] <+: cs.take budget := by
      rw [htake]
      exact ⟨after, by simp⟩
    exact hhead.trans (List.take_prefix _ _)
  · omega
  · intro other hother hwithin
    have hhead : other ++ ['\n'] <+: cs.take budget := by
      rw [List.prefix_take_iff]
      refine ⟨hother, ?_⟩
      rw [List.length_append, List.length_singleton]
      omega
    rw [htake] at hhead
    exact length_le_of_ends hafter hhead

/-! ## More budget -/

/-- What is kept starts the budget. -/
theorem kept_isPrefix_take (budget : Nat) (cs : List Char) : kept budget cs <+: cs.take budget := by
  by_cases h : '\n' ∈ cs.take budget
  · obtain ⟨before, after, htake, hafter⟩ := exists_last_newline h
    rw [kept_of_newline htake hafter, htake]
    exact List.prefix_append _ _
  · rw [kept_of_no_newline h]

/-- What is kept starts the text. -/
theorem kept_isPrefix (budget : Nat) (cs : List Char) : kept budget cs <+: cs :=
  (kept_isPrefix_take budget cs).trans (List.take_prefix budget cs)

/-- What is kept is within the budget. -/
theorem length_kept_le (budget : Nat) (cs : List Char) : (kept budget cs).length ≤ budget := by
  have hlength := (kept_isPrefix_take budget cs).length_le
  rw [List.length_take] at hlength
  omega

/-- **A larger budget keeps more.** -/
theorem kept_mono {more : Nat} (h : budget ≤ more) (cs : List Char) :
    kept budget cs <+: kept more cs := by
  apply List.prefix_of_prefix_length_le (kept_isPrefix budget cs) (kept_isPrefix more cs)
  by_cases hmore : '\n' ∈ cs.take more
  · have hkept := wholeLines_kept hmore
    by_cases hbudget : '\n' ∈ cs.take budget
    · -- The line end that cuts the smaller part is one of those inside the larger budget.
      have hless := wholeLines_kept hbudget
      exact hkept.longest _ hless.ends (by have := hless.within; omega)
    · -- Without a line end inside the smaller budget, the first one comes behind it.
      rw [kept_of_no_newline hbudget]
      by_contra hlong
      apply hbudget
      have hlength := List.length_take_le budget cs
      have hhead : kept more cs ++ ['\n'] <+: cs.take budget := by
        rw [List.prefix_take_iff]
        refine ⟨hkept.ends, ?_⟩
        rw [List.length_append, List.length_singleton]
        omega
      exact hhead.subset (by simp)
  · rw [kept_of_no_newline hmore]
    have hlength := (kept_isPrefix budget cs).length_le
    have hbudget := length_kept_le budget cs
    rw [List.length_take]
    omega

/-! ## Byte offsets -/

/-- The number of bytes of a text. -/
def byteSize (cs : List Char) : Nat := cs.foldr (fun c size => c.utf8Size + size) 0

/-- The characters of a text, each with the byte offset at which it starts. -/
def offsetsFrom (start : Nat) : List Char → List (Nat × Char)
  | [] => []
  | c :: cs => (start, c) :: offsetsFrom (start + c.utf8Size) cs

/-- The text in front of a byte offset, if that is the boundary of a character. -/
def sliceTo? (offset : Nat) : List Char → Option (List Char)
  | [] => if offset = 0 then some [] else none
  | c :: cs =>
    if offset = 0 then some []
    else if offset < c.utf8Size then none
    else (sliceTo? (offset - c.utf8Size) cs).map (c :: ·)

/-- The byte offset of the first character over the budget, or the size of the text. -/
def limitOffset (budget : Nat) (cs : List Char) : Nat :=
  ((offsetsFrom 0 cs)[budget]?.map Prod.fst).getD (byteSize cs)

/-- The byte offset of the last line end, or the given one if there is none. -/
def lineEndOffset (limit : Nat) (cs : List Char) : Nat :=
  (((offsetsFrom 0 cs).filter fun p => p.2 = '\n').getLast?.map Prod.fst).getD limit

/-- The part of a text that a budget keeps, cut out at byte offsets: first at that of the budget,
then at that of the last line end in front of it. -/
def keptAtOffsets? (budget : Nat) (cs : List Char) : Option (List Char) := do
  let limit := limitOffset budget cs
  let head ← sliceTo? limit cs
  sliceTo? (lineEndOffset limit head) cs

/-- The bytes of a text are those of its characters. -/
theorem byteSize_cons (c : Char) (cs : List Char) : byteSize (c :: cs) = c.utf8Size + byteSize cs :=
  rfl

/-- The slice up to the bytes of a front is that front. -/
theorem sliceTo?_append (u w : List Char) : sliceTo? (byteSize u) (u ++ w) = some u := by
  induction u with
  | nil => cases w <;> simp [byteSize, sliceTo?]
  | cons c u ih =>
      have hpos := c.utf8Size_pos
      rw [byteSize_cons, List.cons_append, sliceTo?, if_neg (by omega), if_neg (by omega),
        Nat.add_sub_cancel_left, ih]
      rfl

/-- The offsets behind a front start at its bytes. -/
theorem offsetsFrom_append (start : Nat) (u w : List Char) :
    offsetsFrom start (u ++ w) = offsetsFrom start u ++ offsetsFrom (start + byteSize u) w := by
  induction u generalizing start with
  | nil => rfl
  | cons c u ih =>
      rw [List.cons_append, offsetsFrom, offsetsFrom, ih, byteSize_cons, Nat.add_assoc]
      rfl

/-- Every character has one offset. -/
theorem length_offsetsFrom (start : Nat) (cs : List Char) :
    (offsetsFrom start cs).length = cs.length := by
  induction cs generalizing start with
  | nil => rfl
  | cons c cs ih => rw [offsetsFrom, List.length_cons, List.length_cons, ih]

/-- Offsets belong to characters of the text. -/
theorem mem_of_mem_offsetsFrom {start : Nat} {p : Nat × Char} (h : p ∈ offsetsFrom start cs) :
    p.2 ∈ cs := by
  induction cs generalizing start with
  | nil => cases h
  | cons c cs ih =>
      rcases List.mem_cons.mp h with rfl | hrest
      · exact List.mem_cons_self
      · exact List.mem_cons_of_mem _ (ih hrest)

/-- A text without line breaks has no offset of one. -/
theorem filter_offsetsFrom_of_no_newline (start : Nat) (h : '\n' ∉ cs) :
    (offsetsFrom start cs).filter (fun p => p.2 = '\n') = [] := by
  rw [List.filter_eq_nil_iff]
  intro p hp hnewline
  have hchar : p.2 = '\n' := by simpa using hnewline
  exact h (hchar ▸ mem_of_mem_offsetsFrom hp)

/-- The first offset is behind the characters that the budget allows. -/
theorem limitOffset_eq (budget : Nat) (cs : List Char) :
    limitOffset budget cs = byteSize (cs.take budget) := by
  rw [limitOffset]
  by_cases h : budget < cs.length
  · have hlength : (offsetsFrom 0 (cs.take budget)).length = budget := by
      rw [length_offsetsFrom, List.length_take_of_le (Nat.le_of_lt h)]
    have hoffsets : offsetsFrom 0 cs = offsetsFrom 0 (cs.take budget)
        ++ (byteSize (cs.take budget), cs[budget]) :: offsetsFrom
          (byteSize (cs.take budget) + cs[budget].utf8Size) (cs.drop (budget + 1)) := by
      have hsplit := offsetsFrom_append 0 (cs.take budget) (cs.drop budget)
      rwa [List.take_append_drop, List.drop_eq_getElem_cons h, Nat.zero_add] at hsplit
    rw [hoffsets, List.getElem?_append_right (by omega), hlength, Nat.sub_self]
    rfl
  · have hend : (offsetsFrom 0 cs)[budget]? = none := by
      rw [List.getElem?_eq_none_iff, length_offsetsFrom]
      omega
    rw [hend, List.take_of_length_le (by omega)]
    rfl

/-- The second offset is behind the characters in front of the last line end. -/
theorem lineEndOffset_of_newline (limit : Nat) (before : List Char) (hafter : '\n' ∉ after) :
    lineEndOffset limit (before ++ '\n' :: after) = byteSize before := by
  have hfilter : (offsetsFrom 0 (before ++ '\n' :: after)).filter (fun p => p.2 = '\n')
      = (offsetsFrom 0 before).filter (fun p => p.2 = '\n') ++ [(byteSize before, '\n')] := by
    rw [offsetsFrom_append, List.filter_append, offsetsFrom, List.filter_cons_of_pos (by simp),
      filter_offsetsFrom_of_no_newline _ hafter, Nat.zero_add]
  rw [lineEndOffset, hfilter, List.getLast?_concat]
  rfl

/-- Without a line break the limit is the cut. -/
theorem lineEndOffset_of_no_newline (limit : Nat) (h : '\n' ∉ cs) :
    lineEndOffset limit cs = limit := by
  rw [lineEndOffset, filter_offsetsFrom_of_no_newline 0 h]
  rfl

/-- **The cut is at boundaries of characters**: cut out by byte offsets, the part that is kept is
the same. -/
theorem keptAtOffsets?_eq (budget : Nat) (cs : List Char) :
    keptAtOffsets? budget cs = some (kept budget cs) := by
  have hhead : sliceTo? (limitOffset budget cs) cs = some (cs.take budget) := by
    have hslice := sliceTo?_append (cs.take budget) (cs.drop budget)
    rwa [List.take_append_drop, ← limitOffset_eq] at hslice
  simp only [keptAtOffsets?, hhead, Option.bind_eq_bind, Option.bind_some]
  by_cases h : '\n' ∈ cs.take budget
  · obtain ⟨before, after, htake, hafter⟩ := exists_last_newline h
    obtain ⟨rest, hrest⟩ := (kept_isPrefix budget cs)
    rw [kept_of_newline htake hafter] at hrest ⊢
    rw [htake, lineEndOffset_of_newline _ _ hafter, ← hrest]
    exact sliceTo?_append before rest
  · rw [lineEndOffset_of_no_newline _ h, kept_of_no_newline h, hhead]

/-! ## Whole lines that fit -/

/-- **Which whole lines are kept.**  If a line end is among the characters that the budget allows or
directly behind them, the part that is kept is all whole lines that fit, unless a line ends inside
the budget and another one exactly where the budget does. -/
theorem wholeLines_kept_iff (h : '\n' ∈ cs.take (budget + 1)) :
    WholeLines budget cs (kept budget cs) ↔ ¬('\n' ∈ cs.take budget ∧ cs[budget]? = some '\n') := by
  have hbehind : '\n' ∉ cs.take budget → cs[budget]? = some '\n' := by
    intro hinside
    rw [List.take_add_one, List.mem_append] at h
    simpa using h.resolve_left hinside
  constructor
  · rintro hwhole ⟨hinside, hend⟩
    obtain ⟨hlt, -⟩ := List.getElem?_eq_some_iff.mp hend
    have hlength := List.length_take_of_le (Nat.le_of_lt hlt)
    have hlong := hwhole.longest _ ((ends_take_iff (Nat.le_of_lt hlt)).mpr hend) (by omega)
    have hshort := (wholeLines_kept hinside).within
    have hpos : budget ≠ 0 := by
      rintro rfl
      simp at hinside
    omega
  · intro hnot
    by_cases hinside : '\n' ∈ cs.take budget
    · have hkept := wholeLines_kept hinside
      have hwithin := hkept.within
      refine ⟨hkept.ends, by omega, ?_⟩
      intro other hother hfits
      have hne : other.length ≠ budget := by
        rintro rfl
        exact hnot ⟨hinside, (eq_take_of_ends hother).2⟩
      exact hkept.longest other hother (by omega)
    · have hend := hbehind hinside
      obtain ⟨hlt, -⟩ := List.getElem?_eq_some_iff.mp hend
      have hlength := List.length_take_of_le (Nat.le_of_lt hlt)
      rw [kept_of_no_newline hinside]
      refine ⟨(ends_take_iff (Nat.le_of_lt hlt)).mpr hend, by omega, ?_⟩
      intro other _ hfits
      omega

end CodeIndex.Render
