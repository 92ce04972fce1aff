import Mathlib.Data.List.Infix
import CodeIndex.Text.Slice

/-!
# Leading copies of a word

A text is some copies of a word and a rest that does not start with it, and this in one way only.
The rest is what is left when every leading copy is removed, however many stand in front.

* `IsBehind.unique` : there is one rest.
* `stripAll_eq_iff` : removing the leading copies finds it.
* `stripAll_copies`, `stripAll_stripAll` : copies in front change nothing, and none is left.
-/

namespace CodeIndex.Text

/-- So many copies of a word. -/
def copies (n : Nat) (word : List Char) : List Char := (List.replicate n word).flatten

/-- Copies of the word and the rest make up the text, and the rest does not start with it. -/
def IsBehind (word cs rest : List Char) : Prop :=
  ∃ n, copies n word ++ rest = cs ∧ ¬word <+: rest

variable {word cs rest rest' : List Char}

theorem copies_zero (word : List Char) : copies 0 word = [] := rfl

theorem copies_succ (n : Nat) (word : List Char) : copies (n + 1) word = word ++ copies n word := by
  rw [copies, List.replicate_succ, List.flatten_cons]
  rfl

/-- Copies of nothing are nothing. -/
theorem copies_nil (n : Nat) : copies n [] = [] := by
  induction n with
  | zero => rfl
  | succ n ih => rw [copies_succ, ih, List.append_nil]

/-- Copies are put one behind the other. -/
theorem copies_add (m n : Nat) (word : List Char) :
    copies (m + n) word = copies m word ++ copies n word := by
  rw [copies, List.replicate_add, List.flatten_append]
  rfl

/-- A word is stripped where it stands in front. -/
theorem stripStart?_eq_some_iff : stripStart? word cs = some rest ↔ word ++ rest = cs :=
  List.isPrefixOf?_eq_some_iff_append_eq

theorem stripStart?_eq_none_iff : stripStart? word cs = none ↔ ¬word <+: cs := by
  rw [← Option.not_isSome_iff_eq_none, Option.isSome_iff_exists]
  simp only [stripStart?_eq_some_iff]
  rfl

/-- **There is one rest** behind the leading copies of a word. -/
theorem IsBehind.unique (h : IsBehind word cs rest) (h' : IsBehind word cs rest') :
    rest = rest' := by
  obtain ⟨n, hn, hrest⟩ := h
  obtain ⟨n', hn', hrest'⟩ := h'
  induction n generalizing cs n' with
  | zero =>
      cases n' with
      | zero => exact hn.trans hn'.symm
      | succ n' =>
          refine absurd ⟨copies n' word ++ rest', ?_⟩ hrest
          rw [← List.append_assoc, ← copies_succ, hn', ← hn]
          rfl
  | succ n ih =>
      cases n' with
      | zero =>
          refine absurd ⟨copies n word ++ rest, ?_⟩ hrest'
          rw [← List.append_assoc, ← copies_succ, hn, ← hn']
          rfl
      | succ n' =>
          rw [copies_succ, List.append_assoc] at hn hn'
          have hsame := List.append_cancel_left (hn.trans hn'.symm)
          exact ih rfl n' hsame.symm

/-- Each round takes one copy off, so as many rounds as there are characters are enough. -/
theorem isBehind_stripAllFrom (hword : word ≠ []) {fuel : Nat} (hfuel : cs.length ≤ fuel) :
    IsBehind word cs (stripAllFrom word fuel cs) := by
  induction fuel generalizing cs with
  | zero =>
      have hnil : cs = [] := List.eq_nil_of_length_eq_zero (Nat.le_zero.mp hfuel)
      refine ⟨0, rfl, ?_⟩
      rw [hnil]
      exact fun hprefix => hword (List.prefix_nil.mp hprefix)
  | succ fuel ih =>
      rw [stripAllFrom]
      cases hstrip : stripStart? word cs with
      | none => exact ⟨0, rfl, stripStart?_eq_none_iff.mp hstrip⟩
      | some rest =>
          have hcs := stripStart?_eq_some_iff.mp hstrip
          have hlength := List.length_pos_iff.mpr hword
          rw [← hcs, List.length_append] at hfuel
          have hshorter : rest.length ≤ fuel := by omega
          obtain ⟨n, hn, hrest⟩ := ih hshorter
          refine ⟨n + 1, ?_, hrest⟩
          rw [copies_succ, List.append_assoc, hn, hcs]

/-- What is left when all copies are stripped is behind them. -/
theorem isBehind_stripAll (hword : word ≠ []) (cs : List Char) :
    IsBehind word cs (stripAll word cs) := by
  have hempty : word.isEmpty = false := by simpa using hword
  rw [stripAll, hempty]
  exact isBehind_stripAllFrom hword (Nat.le_refl _)

/-- **Removing the leading copies of a word** leaves the rest behind them. -/
theorem stripAll_eq_iff (hword : word ≠ []) : stripAll word cs = rest ↔ IsBehind word cs rest := by
  have hstrip := isBehind_stripAll hword cs
  constructor
  · rintro rfl
    exact hstrip
  · exact hstrip.unique

/-- A word of one character is removed with each leading copy of that character. -/
theorem isBehind_dropWhile (c : Char) (cs : List Char) :
    IsBehind [c] cs (cs.dropWhile (· == c)) := by
  induction cs with
  | nil => exact ⟨0, rfl, by simp⟩
  | cons d cs ih =>
      by_cases hd : d = c
      · obtain ⟨n, hn, hrest⟩ := ih
        refine ⟨n + 1, ?_, ?_⟩
        · rw [copies_succ, List.dropWhile_cons_of_pos (by simpa using hd), List.append_assoc, hn, hd]
          rfl
        · rwa [List.dropWhile_cons_of_pos (by simpa using hd)]
      · rw [List.dropWhile_cons_of_neg (by simpa using hd)]
        exact ⟨0, rfl, fun hprefix => hd (List.cons_prefix_cons.mp hprefix).1.symm⟩

/-- Copies of the word in front change nothing. -/
theorem stripAll_copies (n : Nat) (word cs : List Char) :
    stripAll word (copies n word ++ cs) = stripAll word cs := by
  by_cases hword : word = []
  · rw [hword, copies_nil, List.nil_append]
  · obtain ⟨m, hm, hrest⟩ := isBehind_stripAll hword cs
    refine (stripAll_eq_iff hword).mpr ⟨n + m, ?_, hrest⟩
    rw [copies_add, List.append_assoc, hm]

/-- What is left is the end of the text. -/
theorem stripAll_suffix (word cs : List Char) : stripAll word cs <:+ cs := by
  by_cases hword : word = []
  · rw [hword]
    exact List.suffix_refl _
  · obtain ⟨n, hn, -⟩ := isBehind_stripAll hword cs
    exact ⟨copies n word, hn⟩

/-- No copy is left. -/
theorem stripAll_stripAll (word cs : List Char) :
    stripAll word (stripAll word cs) = stripAll word cs := by
  by_cases hword : word = []
  · rw [hword]
    rfl
  · obtain ⟨-, -, hrest⟩ := isBehind_stripAll hword cs
    exact (stripAll_eq_iff hword).mpr ⟨0, rfl, hrest⟩

end CodeIndex.Text
