import Mathlib.Data.List.TakeWhile
import CodeIndex.Text.Blank

/-!
# Blanks around a text

Leading blanks are dropped up to the first character that is none, so what stands behind that
character stays as it is; and a text between blanks comes out whole when it neither starts nor ends
with one.

* `trimStart_append_of_ne_nil`, `trimStart_append_of_eq_nil` : dropping the blanks of a joined text.
* `trim_append_blank` : the blanks around a text are all that trimming takes.
* `trim_eq_nil_iff` : nothing is left of blanks alone, and of nothing else.
* `exists_trim` : a text is its trim between blanks.
* `tight_iff` : the texts that trimming leaves as they are.
* `trimEnd_append`, `trimEnd_mono` : the trailing blanks of a joined text and of a longer one.
-/

namespace CodeIndex.Text

/-- Dropping leading blanks stops inside a text that holds something else. -/
theorem trimStart_append_of_ne_nil {cs : List Char} (h : trimStart cs ≠ []) (rest : List Char) :
    trimStart (cs ++ rest) = trimStart cs ++ rest := by
  rw [trimStart, List.dropWhile_append, if_neg (by simpa [trimStart] using h)]
  rfl

/-- Leading blanks are dropped together with those that follow them. -/
theorem trimStart_append_of_eq_nil {cs : List Char} (h : trimStart cs = []) (rest : List Char) :
    trimStart (cs ++ rest) = trimStart rest := by
  rw [trimStart, List.dropWhile_append, if_pos (by simpa [trimStart] using h)]
  rfl

/-- Blanks alone leave nothing when they are dropped. -/
theorem trimStart_of_blank {cs : List Char} (h : ∀ c ∈ cs, isBlank c = true) :
    trimStart cs = [] :=
  List.dropWhile_eq_nil_iff.mpr h

/-- A text that starts with no blank has none to drop. -/
theorem trimStart_cons_of_not_blank {c : Char} (h : isBlank c = false) (cs : List Char) :
    trimStart (c :: cs) = c :: cs :=
  List.dropWhile_cons_of_neg (by simp [h])

/-- Trimming takes the blanks around a text away and nothing of the text. -/
theorem trim_append_blank {lead cs tail : List Char} (hlead : ∀ c ∈ lead, isBlank c = true)
    (hhead : ∀ c, cs.head? = some c → isBlank c = false)
    (hlast : ∀ c, cs.getLast? = some c → isBlank c = false)
    (htail : ∀ c ∈ tail, isBlank c = true) : trim (lead ++ cs ++ tail) = cs := by
  rw [trim, List.append_assoc, trimStart_append_of_eq_nil (trimStart_of_blank hlead)]
  cases cs with
  | nil =>
      rw [List.nil_append, trimStart_of_blank htail]
      rfl
  | cons c cs =>
      have hend : trimEnd (c :: cs ++ tail) = trimEnd (c :: cs) := by
        rw [trimEnd, trimEnd, dropTail, dropTail, List.reverse_append,
          List.dropWhile_append_of_pos (by simpa using htail)]
      rw [List.cons_append, trimStart_cons_of_not_blank (hhead c rfl), ← List.cons_append, hend]
      exact dropTail_eq_self hlast

/-- Dropping a class of characters from the front leaves every other character. -/
theorem mem_dropWhile {p : Char → Bool} {cs : List Char} {c : Char} (hmem : c ∈ cs)
    (hc : p c = false) : c ∈ cs.dropWhile p := by
  rw [← List.takeWhile_append_dropWhile (p := p) (l := cs), List.mem_append] at hmem
  rcases hmem with htake | hdrop
  · rw [List.mem_takeWhile_imp htake] at hc
    cases hc
  · exact hdrop

/-- Only blanks are trimmed to nothing. -/
theorem trim_eq_nil_iff {cs : List Char} : trim cs = [] ↔ ∀ c ∈ cs, isBlank c = true := by
  constructor
  · intro h c hc
    by_contra hblank
    rw [Bool.not_eq_true] at hblank
    have hmem : c ∈ trim cs := by
      rw [trim, trimEnd, dropTail, List.mem_reverse]
      exact mem_dropWhile (List.mem_reverse.mpr (mem_dropWhile hc hblank)) hblank
    rw [h] at hmem
    cases hmem
  · intro h
    rw [trim, trimStart_of_blank h]
    rfl

/-- What is dropped from the end are blanks. -/
theorem exists_trimEnd (cs : List Char) : ∃ tail, cs = trimEnd cs ++ tail ∧
    ∀ c ∈ tail, isBlank c = true := by
  refine ⟨(cs.reverse.takeWhile isBlank).reverse, ?_,
    fun c hc => List.mem_takeWhile_imp (List.mem_reverse.mp hc)⟩
  rw [trimEnd, dropTail, ← List.reverse_append, List.takeWhile_append_dropWhile,
    List.reverse_reverse]

/-- What trimming takes away are blanks on both sides. -/
theorem exists_trim (cs : List Char) : ∃ lead tail, cs = lead ++ trim cs ++ tail ∧
    (∀ c ∈ lead, isBlank c = true) ∧ ∀ c ∈ tail, isBlank c = true := by
  obtain ⟨tail, htail, hblank⟩ := exists_trimEnd (trimStart cs)
  refine ⟨cs.takeWhile isBlank, tail, ?_, fun c hc => List.mem_takeWhile_imp hc, hblank⟩
  rw [List.append_assoc, trim, ← htail]
  exact List.takeWhile_append_dropWhile.symm

/-! ## Texts without outer blanks -/

/-- The text neither starts nor ends with a blank. -/
structure Tight (cs : List Char) : Prop where
  head : ∀ c, cs.head? = some c → isBlank c = false
  last : ∀ c, cs.getLast? = some c → isBlank c = false

/-- What is left starts with no blank. -/
theorem not_blank_of_head?_trimStart {cs : List Char} {c : Char}
    (h : (trimStart cs).head? = some c) : isBlank c = false := by
  have hnot := List.head?_dropWhile_not isBlank cs
  rw [trimStart] at h
  rw [h] at hnot
  exact hnot

/-- Blanks are dropped at the end alone. -/
theorem trimEnd_isPrefix (cs : List Char) : trimEnd cs <+: cs := by
  rw [trimEnd, dropTail, ← List.reverse_suffix, List.reverse_reverse]
  exact List.dropWhile_suffix _

/-- What is left when the trailing blanks are dropped ends with none. -/
theorem not_blank_of_getLast?_trimEnd {cs : List Char} {c : Char}
    (h : (trimEnd cs).getLast? = some c) : isBlank c = false := by
  rw [trimEnd, dropTail, List.getLast?_reverse] at h
  exact not_blank_of_head?_trimStart h

/-- A trimmed text is tight. -/
theorem tight_trim (cs : List Char) : Tight (trim cs) := by
  constructor
  · intro c hc
    obtain ⟨rest, hrest⟩ := trimEnd_isPrefix (trimStart cs)
    have hhead : (trimStart cs).head? = some c := by
      rw [← hrest, List.head?_append, ← trim, hc]
      rfl
    exact not_blank_of_head?_trimStart hhead
  · intro c hc
    exact not_blank_of_getLast?_trimEnd hc

/-- Trimming leaves a text as it is when it neither starts nor ends with a blank. -/
theorem tight_iff {cs : List Char} : Tight cs ↔ trim cs = cs := by
  constructor
  · intro h
    exact trim_eq_self h.head h.last
  · intro h
    rw [← h]
    exact tight_trim cs

/-- Tight texts are tight together. -/
theorem Tight.append {a b : List Char} (ha : Tight a) (hb : Tight b) : Tight (a ++ b) := by
  constructor
  · intro c hc
    rw [List.head?_append, Option.or_eq_some_iff] at hc
    rcases hc with hc | ⟨-, hc⟩
    · exact ha.head c hc
    · exact hb.head c hc
  · intro c hc
    rw [List.getLast?_append, Option.or_eq_some_iff] at hc
    rcases hc with hc | ⟨-, hc⟩
    · exact hb.last c hc
    · exact ha.last c hc

/-- A text without any blank has none at its ends. -/
theorem tight_of_not_blank {cs : List Char} (h : ∀ c ∈ cs, isBlank c = false) : Tight cs where
  head := fun c hc => h c (List.mem_of_head? hc)
  last := fun c hc => h c (List.mem_of_getLast? hc)

/-- A text between blanks is what trimming leaves. -/
theorem Tight.trim_between {lead cs tail : List Char} (h : Tight cs)
    (hlead : ∀ c ∈ lead, isBlank c = true) (htail : ∀ c ∈ tail, isBlank c = true) :
    trim (lead ++ cs ++ tail) = cs :=
  trim_append_blank hlead h.head h.last htail

/-! ## Trailing blanks -/

/-- The trailing blanks of a joined text are in its second part, or reach into the first. -/
theorem trimEnd_append (a b : List Char) :
    trimEnd (a ++ b) = if trimEnd b = [] then trimEnd a else a ++ trimEnd b := by
  simp only [trimEnd, dropTail, List.reverse_append, List.dropWhile_append, List.reverse_eq_nil_iff,
    List.isEmpty_iff]
  split
  · rfl
  · rw [List.reverse_append, List.reverse_reverse]

/-- A longer text keeps more when its trailing blanks are dropped. -/
theorem trimEnd_mono {a b : List Char} (h : a <+: b) : trimEnd a <+: trimEnd b := by
  obtain ⟨rest, rfl⟩ := h
  rw [trimEnd_append]
  split
  · exact List.prefix_refl _
  · exact (trimEnd_isPrefix a).trans (List.prefix_append a _)

/-- Nothing is dropped exactly when the text does not end with a blank. -/
theorem length_trimEnd_eq_iff {cs : List Char} : (trimEnd cs).length = cs.length ↔
    ∀ c, cs.getLast? = some c → isBlank c = false := by
  constructor
  · intro h c hc
    rw [← (trimEnd_isPrefix cs).eq_of_length h] at hc
    exact not_blank_of_getLast?_trimEnd hc
  · intro h
    exact congrArg List.length (dropTail_eq_self h)

end CodeIndex.Text
