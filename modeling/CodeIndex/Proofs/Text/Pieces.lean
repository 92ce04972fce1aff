import CodeIndex.Text.Slice

/-!
# The pieces of a text

A text is its pieces with separators between them, and the pieces of two texts with a separator
between them are those of the first and then those of the second.  A word occurs in a text where it
is a piece of its own.

* `splitAt_append_cons`, `length_splitAt` : the pieces of a joined text, and how many there are.
* `join_splitAt`, `splitAt_join` : joining the pieces gives the text back, and splitting it the
  pieces.
* `mem_splitAt_iff` : the pieces are the words between separators.
* `mem_dropLast_splitAt_iff` : those that a separator ends.
* `splitOnce?_eq_some_iff`, `splitLast?_eq_some_iff` : the cuts at the first separator and at the
  last.
* `contains_iff` : what it means that a word occurs.
-/

namespace CodeIndex.Text

/-- A text without the separator is one piece. -/
theorem splitAt_of_not_mem {sep : Char} {cs : List Char} (h : sep ∉ cs) :
    splitAt sep cs = [cs] := by
  induction cs with
  | nil => rfl
  | cons c cs ih =>
      rw [List.mem_cons, not_or] at h
      rw [splitAt, if_neg (Ne.symm h.1), ih h.2]

/-- Every text has a piece. -/
theorem splitAt_ne_nil (sep : Char) (cs : List Char) : splitAt sep cs ≠ [] := by
  cases cs with
  | nil => simp [splitAt]
  | cons c cs =>
      rw [splitAt]
      split
      · simp
      · split <;> simp

/-- A separator divides the pieces. -/
theorem splitAt_append_cons (sep : Char) (a b : List Char) :
    splitAt sep (a ++ sep :: b) = splitAt sep a ++ splitAt sep b := by
  induction a with
  | nil => simp [splitAt]
  | cons c a ih =>
      rw [List.cons_append, splitAt, splitAt, ih]
      by_cases hc : c = sep
      · rw [if_pos hc, if_pos hc, List.cons_append]
      · rw [if_neg hc, if_neg hc]
        cases hparts : splitAt sep a with
        | nil => exact absurd hparts (splitAt_ne_nil sep a)
        | cons part parts => rfl

/-- The pieces are one more than the separators. -/
theorem length_splitAt (sep : Char) (cs : List Char) :
    (splitAt sep cs).length = cs.count sep + 1 := by
  induction cs with
  | nil => rfl
  | cons c cs ih =>
      rw [splitAt]
      by_cases hc : c = sep
      · rw [if_pos hc, hc, List.length_cons, List.count_cons_self, ih]
      · rw [if_neg hc, List.count_cons_of_ne hc]
        cases hparts : splitAt sep cs with
        | nil => exact absurd hparts (splitAt_ne_nil sep cs)
        | cons part parts => rw [← ih, hparts, List.length_cons, List.length_cons]

/-- The first part is followed by a separator, if there are more. -/
theorem join_cons {parts : List (List Char)} (h : parts ≠ []) (sep part : List Char) :
    join sep (part :: parts) = part ++ sep ++ join sep parts := by
  cases parts with
  | nil => exact absurd rfl h
  | cons next parts => rfl

/-- Parts are joined group by group. -/
theorem join_append {l r : List (List Char)} (hl : l ≠ []) (hr : r ≠ []) (sep : List Char) :
    join sep (l ++ r) = join sep l ++ sep ++ join sep r := by
  induction l with
  | nil => exact absurd rfl hl
  | cons part parts ih =>
      by_cases hparts : parts = []
      · rw [hparts, List.singleton_append, join_cons hr]
        rfl
      · rw [List.cons_append, join_cons (by simp [hr]), join_cons hparts, ih hparts]
        simp only [List.append_assoc]

/-- Pieces are joined back. -/
theorem join_splitAt (sep : Char) (cs : List Char) : join [sep] (splitAt sep cs) = cs := by
  induction cs with
  | nil => rfl
  | cons c cs ih =>
      rw [splitAt]
      by_cases hc : c = sep
      · rw [if_pos hc, join_cons (splitAt_ne_nil sep cs), ih, hc]
        rfl
      · rw [if_neg hc]
        cases hparts : splitAt sep cs with
        | nil => exact absurd hparts (splitAt_ne_nil sep cs)
        | cons part parts =>
            rw [hparts] at ih
            cases parts with
            | nil =>
                simp only [join] at ih ⊢
                rw [ih]
            | cons next parts =>
                simp only [join] at ih ⊢
                rw [← ih]
                simp

/-- No piece holds the separator. -/
theorem not_mem_of_mem_splitAt {sep : Char} {part cs : List Char} (h : part ∈ splitAt sep cs) :
    sep ∉ part := by
  induction cs generalizing part with
  | nil =>
      rw [splitAt, List.mem_singleton] at h
      simp [h]
  | cons c cs ih =>
      rw [splitAt] at h
      by_cases hc : c = sep
      · rw [if_pos hc, List.mem_cons] at h
        rcases h with rfl | h
        · simp
        · exact ih h
      · rw [if_neg hc] at h
        cases hparts : splitAt sep cs with
        | nil => exact absurd hparts (splitAt_ne_nil sep cs)
        | cons first parts =>
            simp only [hparts, List.mem_cons] at h
            rcases h with rfl | h
            · rw [List.mem_cons, not_or]
              exact ⟨Ne.symm hc, ih (hparts ▸ List.mem_cons_self)⟩
            · exact ih (hparts ▸ List.mem_cons_of_mem _ h)

/-- Splitting takes joined pieces apart again. -/
theorem splitAt_join {sep : Char} {parts : List (List Char)} (hne : parts ≠ [])
    (h : ∀ part ∈ parts, sep ∉ part) : splitAt sep (join [sep] parts) = parts := by
  induction parts with
  | nil => exact absurd rfl hne
  | cons part parts ih =>
      have hpart := splitAt_of_not_mem (h part List.mem_cons_self)
      by_cases hparts : parts = []
      · rw [hparts]
        exact hpart
      · rw [join_cons hparts, List.append_assoc, List.singleton_append, splitAt_append_cons, hpart,
          ih hparts fun part hmem => h part (List.mem_cons_of_mem _ hmem)]
        rfl

/-- A word is a segment of a text: it stands between two separators or ends of the text. -/
def IsSegment (sep : Char) (word cs : List Char) : Prop :=
  ∃ front back, cs = front ++ word ++ back ∧ (front = [] ∨ front.getLast? = some sep) ∧
    (back = [] ∨ back.head? = some sep)

/-- A piece is a segment. -/
theorem isSegment_of_mem_splitAt {sep : Char} {word cs : List Char} (h : word ∈ splitAt sep cs) :
    IsSegment sep word cs := by
  obtain ⟨l, r, hsplit⟩ := List.append_of_mem h
  have hcs := join_splitAt sep cs
  rw [hsplit] at hcs
  have hrest : ∃ back, join [sep] (word :: r) = word ++ back ∧
      (back = [] ∨ back.head? = some sep) := by
    by_cases hr : r = []
    · exact ⟨[], by rw [hr, List.append_nil]; rfl, .inl rfl⟩
    · refine ⟨sep :: join [sep] r, ?_, .inr rfl⟩
      rw [join_cons hr, List.append_assoc, List.singleton_append]
  obtain ⟨back, hjoin, hback⟩ := hrest
  by_cases hl : l = []
  · refine ⟨[], back, ?_, .inl rfl, hback⟩
    rw [← hcs, hl, List.nil_append, hjoin]
    rfl
  · refine ⟨join [sep] l ++ [sep], back, ?_, .inr List.getLast?_concat, hback⟩
    rw [← hcs, join_append hl (List.cons_ne_nil _ _), hjoin, List.append_assoc (_ ++ [sep])]

/-- A segment without separators is a piece. -/
theorem mem_splitAt_of_isSegment {sep : Char} {word cs : List Char} (hword : sep ∉ word)
    (h : IsSegment sep word cs) : word ∈ splitAt sep cs := by
  obtain ⟨front, back, rfl, hfront, hback⟩ := h
  have hrest : ∃ parts, splitAt sep (word ++ back) = word :: parts := by
    rcases hback with rfl | hback
    · exact ⟨[], by rw [List.append_nil, splitAt_of_not_mem hword]⟩
    · obtain ⟨after, rfl⟩ := List.head?_eq_some_iff.mp hback
      exact ⟨splitAt sep after, by rw [splitAt_append_cons, splitAt_of_not_mem hword]; rfl⟩
  obtain ⟨parts, hparts⟩ := hrest
  rcases hfront with rfl | hfront
  · rw [List.nil_append, hparts]
    exact List.mem_cons_self
  · obtain ⟨before, rfl⟩ := List.getLast?_eq_some_iff.mp hfront
    rw [List.append_assoc, List.append_assoc, List.singleton_append, splitAt_append_cons, hparts]
    exact List.mem_append_right _ List.mem_cons_self

/-- The pieces of a text are its segments. -/
theorem mem_splitAt_iff {sep : Char} {word cs : List Char} (hword : sep ∉ word) :
    word ∈ splitAt sep cs ↔ IsSegment sep word cs :=
  ⟨isSegment_of_mem_splitAt, mem_splitAt_of_isSegment hword⟩

/-- A piece of a text with more pieces behind it. -/
theorem exists_of_mem_dropLast_splitAt {sep : Char} {word cs : List Char}
    (h : word ∈ (splitAt sep cs).dropLast) :
    ∃ before rest, splitAt sep cs = before ++ word :: rest ∧ rest ≠ [] := by
  obtain ⟨before, after, hpieces⟩ := List.append_of_mem h
  refine ⟨before, after ++ [(splitAt sep cs).getLast (splitAt_ne_nil sep cs)], ?_, by simp⟩
  rw [← List.cons_append, ← List.append_assoc, ← hpieces, List.dropLast_concat_getLast]

/-- A word is a piece of a text, but not its last one, exactly if the text starts with it and a
separator, or it stands between separators. -/
theorem mem_dropLast_splitAt_iff {sep : Char} {word cs : List Char} (hword : sep ∉ word) :
    word ∈ (splitAt sep cs).dropLast ↔
      word ++ [sep] <+: cs ∨ sep :: (word ++ [sep]) <:+: cs := by
  have hpieces : ∀ back, word ∈ (splitAt sep (word ++ sep :: back)).dropLast := by
    intro back
    rw [splitAt_append_cons, splitAt_of_not_mem hword,
      List.dropLast_append_of_ne_nil (splitAt_ne_nil sep back)]
    exact List.mem_cons_self
  constructor
  · intro h
    obtain ⟨before, rest, hsplit, hrest⟩ := exists_of_mem_dropLast_splitAt h
    have hcs := join_splitAt sep cs
    rw [hsplit] at hcs
    by_cases hbefore : before = []
    · rw [hbefore, List.nil_append, join_cons hrest] at hcs
      exact .inl ⟨_, hcs⟩
    · rw [join_append hbefore (List.cons_ne_nil _ _), join_cons hrest] at hcs
      refine .inr ⟨join [sep] before, join [sep] rest, ?_⟩
      rw [← hcs]
      simp
  · rintro (⟨back, rfl⟩ | ⟨front, back, rfl⟩)
    · rw [List.append_assoc]
      exact hpieces back
    · have htext : front ++ sep :: (word ++ [sep]) ++ back
          = front ++ sep :: (word ++ sep :: back) := by simp
      rw [htext, splitAt_append_cons, List.dropLast_append_of_ne_nil (splitAt_ne_nil _ _)]
      exact List.mem_append_right _ (hpieces back)

/-- What the first separator cuts a text into. -/
theorem splitOnce?_eq_some_iff {sep : Char} {cs before after : List Char} :
    splitOnce? sep cs = some (before, after) ↔ cs = before ++ sep :: after ∧ sep ∉ before := by
  induction cs generalizing before with
  | nil => simp [splitOnce?]
  | cons c cs ih =>
      by_cases hc : c = sep
      · cases before with
        | nil => simp [splitOnce?, hc]
        | cons d before =>
            simp only [splitOnce?, if_pos hc, List.cons_append, List.cons.injEq]
            grind
      · cases before with
        | nil => simp [splitOnce?, hc]
        | cons d before =>
            simp only [splitOnce?, if_neg hc, Option.map_eq_some_iff, Prod.mk.injEq,
              Prod.exists, List.cons.injEq, List.cons_append]
            grind

/-- Only a text without the separator is not split. -/
theorem splitOnce?_eq_none_iff {sep : Char} {cs : List Char} :
    splitOnce? sep cs = none ↔ sep ∉ cs := by
  induction cs with
  | nil => simp [splitOnce?]
  | cons c cs ih =>
      by_cases hc : c = sep
      · simp [splitOnce?, hc]
      · simp [splitOnce?, hc, ih, Ne.symm hc]

/-- What the last separator cuts a text into. -/
theorem splitLast?_eq_some_iff {sep : Char} {cs before after : List Char} :
    splitLast? sep cs = some (before, after) ↔ cs = before ++ sep :: after ∧ sep ∉ after := by
  rw [splitLast?, Option.map_eq_some_iff]
  constructor
  · rintro ⟨⟨back, front⟩, hsplit, hparts⟩
    obtain ⟨rfl, rfl⟩ := Prod.mk.inj hparts
    obtain ⟨htext, hout⟩ := splitOnce?_eq_some_iff.mp hsplit
    have hcs := congrArg List.reverse htext
    simp only [List.reverse_reverse, List.reverse_append, List.reverse_cons, List.append_assoc,
      List.singleton_append] at hcs
    exact ⟨hcs, by simpa using hout⟩
  · rintro ⟨rfl, hout⟩
    refine ⟨(after.reverse, before.reverse), ?_, by simp⟩
    exact splitOnce?_eq_some_iff.mpr ⟨by simp, by simpa using hout⟩

/-- Only a text without the separator is not split at the last one. -/
theorem splitLast?_eq_none_iff {sep : Char} {cs : List Char} :
    splitLast? sep cs = none ↔ sep ∉ cs := by
  rw [splitLast?, Option.map_eq_none_iff, splitOnce?_eq_none_iff, List.mem_reverse]

/-- The test for the start of a text is the relation. -/
theorem startsWith_iff {word cs : List Char} : startsWith word cs = true ↔ word <+: cs :=
  List.isPrefixOf_iff_prefix

/-- A text ends with its last character. -/
theorem endsWith_concat (cs : List Char) (c d : Char) : endsWith [d] (cs ++ [c]) = (c == d) := by
  rw [Bool.eq_iff_iff, endsWith, List.isSuffixOf_iff_suffix, beq_iff_eq]
  constructor
  · rintro ⟨front, heq⟩
    exact (List.cons.inj (List.append_inj' heq rfl).2).1.symm
  · rintro rfl
    exact List.suffix_append _ _

/-- The test for a part of a text is the relation. -/
theorem contains_iff {word cs : List Char} : contains word cs = true ↔ word <:+: cs := by
  induction cs with
  | nil => rw [contains, List.isEmpty_iff, List.infix_nil]
  | cons c cs ih => rw [contains, Bool.or_eq_true, startsWith_iff, ih, List.infix_cons_iff]

end CodeIndex.Text
