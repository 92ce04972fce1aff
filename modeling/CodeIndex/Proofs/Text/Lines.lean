import CodeIndex.Proofs.Text.CharClass
import CodeIndex.Proofs.Text.Pieces
import CodeIndex.Proofs.Text.Trim

/-!
# The lines of a text

A line end divides a text: the lines of the whole are those in front of it and those behind it.  So
a text that does not end with a line feed has one line more than it has line feeds, unless it is
empty.

* `lines_induction` : a text read from its front, with whole line ends.
* `lines_append_newline` : the lines in front of a line end and behind it.
* `lines_concat_newline` : a line end behind the last line adds none.
* `length_lines`, `lines_of_not_mem` : how many lines there are.
* `lines_append_lineEnd` : a line in front of a line end of either kind.
* `lines_join` : the lines of joined lines.
* `tight_join`, `trim_join` : the blanks around joined lines.
-/

namespace CodeIndex.Text

/-- A line feed at the start ends an empty line. -/
theorem lines_newline (cs : List Char) : lines ('\n' :: cs) = [] :: lines cs := by rw [lines]

theorem lines_return (cs : List Char) : lines ('\r' :: '\n' :: cs) = [] :: lines cs := by rw [lines]

/-- A character that belongs to no line end goes in front of the first line behind it. -/
theorem lines_cons {c : Char} {cs : List Char} (hc : c ≠ '\n')
    (hcs : c = '\r' → cs.head? ≠ some '\n') :
    lines (c :: cs) = (c :: (lines cs).headD []) :: (lines cs).tail := by
  rw [lines]
  · cases lines cs <;> rfl
  · exact hc
  · rintro rest rfl rfl
    exact hcs rfl rfl

/-- A text is read from its front by line ends and by characters that belong to none. -/
theorem lines_induction {P : List Char → Prop} (nil : P [])
    (newline : ∀ rest, P rest → P ('\n' :: rest))
    (both : ∀ rest, P rest → P ('\r' :: '\n' :: rest))
    (char : ∀ c rest, c ≠ '\n' → (c = '\r' → rest.head? ≠ some '\n') → P rest → P (c :: rest))
    (cs : List Char) : P cs := by
  have hchar : ∀ c rest, (c = '\n' → False) →
      (∀ behind, c = '\r' → rest = '\n' :: behind → False) → P rest → P (c :: rest) := by
    intro c rest hc hcs hrest
    refine char c rest hc ?_ hrest
    rintro hreturn hhead
    obtain ⟨behind, hbehind⟩ := List.head?_eq_some_iff.mp hhead
    exact hcs behind hreturn hbehind
  induction cs using lines.induct with
  | case1 => exact nil
  | case2 rest ih => exact newline rest ih
  | case3 rest ih => exact both rest ih
  | case4 c rest hc hcs _ ih => exact hchar c rest hc hcs ih
  | case5 c rest hc hcs _ _ _ ih => exact hchar c rest hc hcs ih

/-- A text that is not empty has a line. -/
theorem lines_ne_nil {cs : List Char} (h : cs ≠ []) : lines cs ≠ [] := by
  induction cs using lines_induction with
  | nil => exact absurd rfl h
  | newline rest _ => simp [lines_newline]
  | both rest _ => simp [lines_return]
  | char c rest hc hcs _ => simp [lines_cons hc hcs]

/-- **A line end divides a text** into the lines in front of it and those behind it. -/
theorem lines_append_newline (a b : List Char) :
    lines (a ++ '\n' :: b) = lines (a ++ ['\n']) ++ lines b := by
  induction a using lines_induction with
  | nil => simp [lines_newline, lines]
  | newline rest ih => simp [lines_newline, ih]
  | both rest ih => simp [lines_return, ih]
  | char c rest hc hcs ih =>
      cases rest with
      | nil =>
          by_cases hreturn : c = '\r'
          · subst hreturn
            simp [lines_return, lines]
          · have hplain : ∀ cs : List Char, c = '\r' → cs.head? ≠ some '\n' :=
              fun _ h => absurd h hreturn
            simp [lines_cons hc (hplain _), lines_newline, lines]
      | cons d rest =>
          have hplain : ∀ cs, c = '\r' → (d :: (rest ++ cs)).head? ≠ some '\n' := fun _ => hcs
          have hne : d :: rest ++ ['\n'] ≠ [] := by simp
          obtain ⟨line, more, hlines⟩ := List.exists_cons_of_ne_nil (lines_ne_nil hne)
          rw [List.cons_append, List.cons_append, List.cons_append, List.cons_append,
            lines_cons hc (hplain _), lines_cons hc (hplain _)]
          rw [← List.cons_append, ← List.cons_append, ih, hlines]
          rfl

section LastLine

variable {c : Char} (hc : c ≠ '\n')

include hc

/-- A text behind a carriage return that starts with no line feed does so with more behind it. -/
theorem head?_append_cons_ne {d : Char} {text : List Char}
    (h : d = '\r' → text.head? ≠ some '\n') (behind : List Char) :
    d = '\r' → (text ++ c :: behind).head? ≠ some '\n' := by
  intro hd
  cases text with
  | nil => simpa using hc
  | cons e text => exact h hd

/-- A line end behind a last line that is not empty adds no line. -/
theorem lines_concat_newline (hreturn : c ≠ '\r') (text : List Char) :
    lines (text ++ [c, '\n']) = lines (text ++ [c]) := by
  induction text using lines_induction with
  | nil =>
      have hplain : ∀ cs : List Char, c = '\r' → cs.head? ≠ some '\n' :=
        fun _ h => absurd h hreturn
      simp [lines_cons hc (hplain _), lines]
  | newline rest ih => simp [lines_newline, ih]
  | both rest ih => simp [lines_return, ih]
  | char d rest hd hrest ih =>
      rw [List.cons_append, List.cons_append, lines_cons hd (head?_append_cons_ne hc hrest _),
        lines_cons hd (head?_append_cons_ne hc hrest _), ih]

/-- **Every line feed makes a line more.** -/
theorem length_lines (text : List Char) :
    (lines (text ++ [c])).length = text.count '\n' + 1 := by
  induction text using lines_induction with
  | nil => simp [lines]
  | newline rest ih => simp [lines_newline, ih]
  | both rest ih => simp [lines_return, ih]
  | char d rest hd hrest ih =>
      have hne : lines (rest ++ [c]) ≠ [] := lines_ne_nil (by simp)
      have hpos := List.length_pos_iff.mpr hne
      rw [List.cons_append, lines_cons hd (head?_append_cons_ne hc hrest _), List.length_cons,
        List.length_tail, List.count_cons_of_ne hd]
      omega

/-- A text without line feed is one line. -/
theorem lines_of_not_mem {text : List Char} (h : '\n' ∉ text) :
    lines (text ++ [c]) = [text ++ [c]] := by
  induction text using lines_induction with
  | nil => simp [lines]
  | newline rest _ => simp at h
  | both rest _ => simp at h
  | char d rest hd hrest ih =>
      rw [List.cons_append, lines_cons hd (head?_append_cons_ne hc hrest _),
        ih fun hmem => h (List.mem_cons_of_mem _ hmem)]
      rfl

end LastLine

/-! ## Lines and their ends -/

/-- How a line ends: with a line feed alone, or with one behind a carriage return. -/
inductive LineEnd where
  | feed
  | returnFeed

/-- A line end as it is written. -/
def LineEnd.chars : LineEnd → List Char
  | .feed => ['\n']
  | .returnFeed => ['\r', '\n']

/-- Either line end at the start ends an empty line. -/
theorem lines_lineEnd (ending : LineEnd) (rest : List Char) :
    lines (ending.chars ++ rest) = [] :: lines rest := by
  cases ending with
  | feed => exact lines_newline rest
  | returnFeed => exact lines_return rest

/-- **A line end of either kind ends a line.**  A carriage return at the end of the line would be
taken for a part of the line end. -/
theorem lines_append_lineEnd {text : List Char} (hfeed : '\n' ∉ text)
    (hreturn : text.getLast? ≠ some '\r') (ending : LineEnd) (rest : List Char) :
    lines (text ++ (ending.chars ++ rest)) = text :: lines rest := by
  induction text with
  | nil => exact lines_lineEnd ending rest
  | cons c text ih =>
      rw [List.mem_cons, not_or] at hfeed
      have hhead : c = '\r' → (text ++ (ending.chars ++ rest)).head? ≠ some '\n' := by
        cases text with
        | nil =>
            rintro rfl
            exact absurd rfl hreturn
        | cons d text =>
            rintro - hd
            exact hfeed.2 (List.mem_cons.mpr (.inl (Option.some.inj hd).symm))
      have hlast : text.getLast? ≠ some '\r' := by
        cases text with
        | nil => simp
        | cons d text => rwa [List.getLast?_cons_cons] at hreturn
      rw [List.cons_append, lines_cons (Ne.symm hfeed.1) hhead, ih hfeed.2 hlast]
      rfl

/-- A line that is not empty is the line of its text. -/
theorem lines_eq_singleton {text : List Char} (hfeed : '\n' ∉ text) (hne : text ≠ []) :
    lines text = [text] := by
  rcases List.eq_nil_or_concat text with rfl | ⟨front, c, rfl⟩
  · exact absurd rfl hne
  · rw [List.concat_eq_append, List.mem_append, List.mem_singleton, not_or] at hfeed
    rw [List.concat_eq_append, lines_of_not_mem (Ne.symm hfeed.2) hfeed.1]

/-- **Joined lines are read back**, unless the last one is empty. -/
theorem lines_join {parts : List (List Char)} (hfeed : ∀ part ∈ parts, '\n' ∉ part)
    (hreturn : ∀ part ∈ parts, part.getLast? ≠ some '\r')
    (hlast : parts.getLast? ≠ some []) : lines (join ['\n'] parts) = parts := by
  induction parts with
  | nil => rfl
  | cons part parts ih =>
      have hpart := hfeed part List.mem_cons_self
      cases parts with
      | nil =>
          refine lines_eq_singleton hpart ?_
          rintro rfl
          exact hlast rfl
      | cons next parts =>
          rw [List.getLast?_cons_cons] at hlast
          have hrest := ih (fun other hother => hfeed other (List.mem_cons_of_mem _ hother))
            (fun other hother => hreturn other (List.mem_cons_of_mem _ hother)) hlast
          have htext : join ['\n'] (part :: next :: parts)
              = part ++ (LineEnd.feed.chars ++ join ['\n'] (next :: parts)) :=
            List.append_assoc _ _ _
          rw [htext, lines_append_lineEnd hpart (hreturn part List.mem_cons_self), hrest]

/-! ## Blanks around joined lines -/

section Joined

variable {parts : List (List Char)} (htight : ∀ part ∈ parts, Tight part)
  (hfirst : parts.head? ≠ some []) (hlast : parts.getLast? ≠ some [])

include htight hfirst hlast

/-- Joined lines have no outer blanks if no line has and neither the first nor the last is
empty. -/
theorem tight_join (sep : List Char) : Tight (join sep parts) := by
  constructor
  · cases parts with
    | nil => simp [join]
    | cons part parts =>
        have hpart : part ≠ [] := by
          rintro rfl
          exact hfirst rfl
        obtain ⟨c, chars, rfl⟩ := List.exists_cons_of_ne_nil hpart
        have hhead := (htight _ List.mem_cons_self).head
        cases parts with
        | nil => exact hhead
        | cons next parts => exact hhead
  · rcases List.eq_nil_or_concat parts with rfl | ⟨front, part, rfl⟩
    · simp [join]
    · rw [List.concat_eq_append] at htight hlast ⊢
      have hpart : part ≠ [] := by
        rintro rfl
        exact hlast (by simp)
      have hend := (htight part (by simp)).last
      by_cases hfront : front = []
      · rw [hfront]
        exact hend
      · rw [join_append hfront (List.cons_ne_nil _ _)]
        intro c hc
        rw [join, List.getLast?_append, Option.or_eq_some_iff] at hc
        rcases hc with hc | ⟨hnone, -⟩
        · exact hend c hc
        · exact absurd (List.getLast?_eq_none_iff.mp hnone) hpart

/-- Trimming takes an empty line in front of joined lines, and one behind them if there is one. -/
theorem trim_join {tail : List (List Char)} (htail : tail = [] ∨ tail = [[]]) :
    trim (join ['\n'] ([] :: (parts ++ tail))) = join ['\n'] parts := by
  have hjoin := tight_join htight hfirst hlast ['\n']
  have hfeed : ∀ c ∈ ['\n'], isBlank c = true := by decide
  by_cases hparts : parts = []
  · rw [hparts]
    rcases htail with rfl | rfl <;> rfl
  · rw [join_cons (by simp [hparts]), List.nil_append]
    rcases htail with rfl | rfl
    · have hnone : ∀ c ∈ ([] : List Char), isBlank c = true := by simp
      have htrim := hjoin.trim_between hfeed hnone
      rwa [List.append_nil] at htrim ⊢
    · rw [join_append hparts (List.cons_ne_nil _ _), ← List.append_assoc, ← List.append_assoc]
      have htrim := hjoin.trim_between hfeed hfeed
      rwa [← List.append_nil (_ ++ _ ++ _)] at htrim

end Joined

end CodeIndex.Text
