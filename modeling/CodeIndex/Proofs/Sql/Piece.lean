import Mathlib.Data.List.Forall2
import Mathlib.Data.List.TakeWhile
import CodeIndex.Proofs.Text.CharClass
import CodeIndex.Proofs.Text.Trim
import CodeIndex.Sql.Script

/-!
# Pieces of text that is put together

The recognisers of keywords look at the text in front of them and no further than they
have to.  This file says how far that is: a keyword ends before the first character that
none of its letters folds to, so what is written behind such a character decides nothing.

* `afterLetters_eq_some_iff` : what a keyword reads is a spelling of it.
* `keyword_append` : a keyword does not reach over the end of a word.
* `phrase_append` : nor do two words with blanks between them, unless the second follows.
-/

namespace CodeIndex.Sql

open Text

/-- `text` spells the keyword letters in some letter case. -/
def Spells (letters text : List Char) : Prop :=
  List.Forall₂ (fun letter c => foldsTo letter c = true) letters text

instance (letters text : List Char) : Decidable (Spells letters text) :=
  inferInstanceAs (Decidable (List.Forall₂ (fun letter c => foldsTo letter c = true) letters text))

/-- Every character of a spelling stands for a letter. -/
theorem Spells.exists_letter {letters text : List Char} (h : Spells letters text) {c : Char}
    (hc : c ∈ text) : ∃ letter ∈ letters, foldsTo letter c = true := by
  induction h with
  | nil => cases hc
  | @cons letter d letters text hd _ ih =>
      rcases List.mem_cons.mp hc with rfl | hc
      · exact ⟨letter, List.mem_cons_self, hd⟩
      · obtain ⟨other, hmem, hfold⟩ := ih hc
        exact ⟨other, List.mem_cons_of_mem _ hmem, hfold⟩

/-- A keyword is there exactly when the text starts with a spelling of it. -/
theorem afterLetters_eq_some_iff {letters cs rest : List Char} :
    afterLetters letters cs = some rest ↔ ∃ text, Spells letters text ∧ cs = text ++ rest := by
  induction letters generalizing cs with
  | nil =>
      constructor
      · intro h
        exact ⟨[], .nil, by simpa [afterLetters] using h⟩
      · rintro ⟨text, htext, rfl⟩
        cases htext
        rfl
  | cons letter letters ih =>
      constructor
      · intro h
        cases cs with
        | nil => simp [afterLetters] at h
        | cons c cs =>
            by_cases hc : foldsTo letter c = true
            · rw [afterLetters, if_pos hc] at h
              obtain ⟨text, htext, rfl⟩ := ih.mp h
              exact ⟨c :: text, .cons hc htext, rfl⟩
            · simp [afterLetters, hc] at h
      · rintro ⟨text, htext, rfl⟩
        cases htext with
        | cons hc htext =>
            rw [List.cons_append, afterLetters, if_pos hc]
            exact ih.mpr ⟨_, htext, rfl⟩

/-- A keyword does not reach over a character that none of its letters folds to. -/
theorem afterLetters_append_stop {letters : List Char} {d : Char}
    (hd : ∀ letter ∈ letters, foldsTo letter d = false) (cs rest : List Char) :
    afterLetters letters (cs ++ d :: rest)
      = (afterLetters letters cs).map (· ++ d :: rest) := by
  induction letters generalizing cs with
  | nil => rfl
  | cons letter letters ih =>
      have hd' : ∀ l ∈ letters, foldsTo l d = false :=
        fun l hl => hd l (List.mem_cons_of_mem _ hl)
      cases cs with
      | nil => simp [afterLetters, hd letter List.mem_cons_self]
      | cons c cs =>
          by_cases hc : foldsTo letter c = true
          · simp [afterLetters, hc, ih hd']
          · simp [afterLetters, hc]

/-- The letters of a keyword are upper-case letters and underscores. -/
def IsKeyword (word : String) : Prop :=
  ∀ letter ∈ word.toList, letter.isUpper = true ∨ letter = '_'

instance (word : String) : Decidable (IsKeyword word) :=
  inferInstanceAs (Decidable (∀ letter ∈ word.toList, letter.isUpper = true ∨ letter = '_'))

/-- A keyword does not reach over the end of a word. -/
theorem keyword_append {word : String} (hword : IsKeyword word) (cs : List Char)
    {rest : List Char} (hrest : isBoundary rest.head? = true) :
    keyword word (cs ++ rest) = (keyword word cs).map (· ++ rest) := by
  cases rest with
  | nil => simp
  | cons d rest =>
      have hd : isWordChar d = false := by simpa [isBoundary] using hrest
      exact afterLetters_append_stop
        (fun letter hletter => foldsTo_of_not_isWordChar (hword letter hletter) hd) cs rest

/-- A keyword starts with a word character. -/
theorem keyword_cons_of_not_word {word : String} (hword : IsKeyword word)
    (hne : word.toList ≠ []) {c : Char} (hc : isWordChar c = false) (cs : List Char) :
    keyword word (c :: cs) = none := by
  unfold keyword IsKeyword at *
  cases hletters : word.toList with
  | nil => exact absurd hletters hne
  | cons letter letters =>
      have hletter := hword letter (by rw [hletters]; exact List.mem_cons_self)
      simp [afterLetters, foldsTo_of_not_isWordChar hletter hc]

/-- A keyword is spelled with word characters. -/
theorem Spells.isWordChar {letters text : List Char}
    (hletters : ∀ letter ∈ letters, letter.isUpper = true ∨ letter = '_')
    (h : Spells letters text) : ∀ c ∈ text, isWordChar c = true := by
  intro c hc
  obtain ⟨letter, hletter, hfold⟩ := h.exists_letter hc
  exact isWordChar_of_foldsTo (hletters letter hletter) hfold

/-- A spelling of a keyword starts with no blank. -/
theorem trimStart_spelling {letters text : List Char}
    (hletters : ∀ letter ∈ letters, letter.isUpper = true ∨ letter = '_')
    (hne : letters ≠ []) (h : Spells letters text) (rest : List Char) :
    trimStart (text ++ rest) = text ++ rest := by
  cases h with
  | nil => exact absurd rfl hne
  | cons hc htext =>
      apply trimStart_cons_of_not_blank
      exact isBlank_of_isWordChar (isWordChar_of_foldsTo (hletters _ List.mem_cons_self) hc)

/-- A run of blanks is read whole. -/
theorem blanks_append {gap : List Char} (hne : gap ≠ []) (h : ∀ c ∈ gap, isBlank c = true)
    (rest : List Char) : blanks (gap ++ rest) = some (trimStart rest) := by
  cases gap with
  | nil => exact absurd rfl hne
  | cons c gap =>
      have hgap : trimStart gap = [] :=
        trimStart_of_blank fun d hd => h d (List.mem_cons_of_mem _ hd)
      rw [List.cons_append, blanks, if_pos (h c List.mem_cons_self),
        trimStart_append_of_eq_nil hgap]

/-- The rest after two words with blanks between them. -/
def phrase (first second : String) (cs : List Char) : Option (List Char) :=
  ((keyword first cs).bind blanks).bind (keyword second)

/-- Reading two words one after the other. -/
theorem phrase_bind {β : Type} (first second : String) (cs : List Char)
    (next : List Char → Option β) :
    ((keyword first cs).bind fun left => (blanks left).bind fun rest =>
      (keyword second rest).bind next) = (phrase first second cs).bind next := by
  simp only [phrase, Option.bind_assoc]

/-- Where the first word is not there, the two are not. -/
theorem phrase_eq_none {first : String} {cs : List Char} (h : keyword first cs = none)
    (second : String) : phrase first second cs = none := by
  rw [phrase, h]
  rfl

/-- Blanks and a word stand before the end of a word, unless the word itself follows it. -/
theorem blanks_keyword_append {word : String} (hword : IsKeyword word) (cs : List Char)
    {rest : List Char} (hrest : isBoundary rest.head? = true)
    (hnext : keyword word (trimStart rest) = none) :
    (blanks (cs ++ rest)).bind (keyword word)
      = ((blanks cs).bind (keyword word)).map (· ++ rest) := by
  cases cs with
  | nil =>
      have hnone : (blanks rest).bind (keyword word) = none := by
        cases rest with
        | nil => rfl
        | cons c rest =>
            by_cases hc : isBlank c = true
            · rw [trimStart, List.dropWhile_cons_of_pos hc] at hnext
              rw [blanks, if_pos hc]
              exact hnext
            · simp [blanks, hc]
      rw [List.nil_append, hnone]
      rfl
  | cons c cs =>
      by_cases hc : isBlank c = true
      · simp only [List.cons_append, blanks, if_pos hc, Option.bind_some]
        by_cases hcs : trimStart cs = []
        · have hempty : keyword word [] = none := by
            unfold keyword at hnext ⊢
            cases hletters : word.toList with
            | nil => simp [hletters, afterLetters] at hnext
            | cons letter letters => rfl
          rw [trimStart_append_of_eq_nil hcs, hcs, hnext, hempty]
          rfl
        · rw [trimStart_append_of_ne_nil hcs, keyword_append hword _ hrest]
      · simp [blanks, hc]

/-- Two words stand before the end of a word, unless the second of them follows it. -/
theorem phrase_append {first second : String} (hfirst : IsKeyword first)
    (hsecond : IsKeyword second) (cs : List Char) {rest : List Char}
    (hrest : isBoundary rest.head? = true) (hnext : keyword second (trimStart rest) = none) :
    phrase first second (cs ++ rest) = (phrase first second cs).map (· ++ rest) := by
  unfold phrase
  rw [keyword_append hfirst _ hrest]
  cases keyword first cs with
  | none => rfl
  | some left => exact blanks_keyword_append hsecond left hrest hnext

/-- A text without blanks does not start with two words. -/
theorem phrase_of_no_blank {first second : String} {cs : List Char}
    (h : ∀ c ∈ cs, isBlank c = false) : phrase first second cs = none := by
  rw [phrase]
  cases hread : keyword first cs with
  | none => rfl
  | some left =>
      obtain ⟨spelled, -, hsplit⟩ := afterLetters_eq_some_iff.mp hread
      cases left with
      | nil => rfl
      | cons d left =>
          have hd : isBlank d = false := h d (by rw [hsplit]; simp)
          simp [blanks, hd]

/-- A header is its two words between boundaries. -/
theorem isHeader_eq (before : Option Char) (cs : List Char) :
    isHeader before cs = (isBoundary before &&
      ((phrase "CREATE" "TABLE" cs).map fun rest => isBoundary rest.head?).getD false) := by
  unfold isHeader phrase
  cases ((keyword "CREATE" cs).bind blanks).bind (keyword "TABLE") <;> rfl

/-- One character of a script: it opens a segment or belongs to the lead. -/
theorem segmentsFrom_cons (before : Option Char) (c : Char) (rest : List Char) :
    segmentsFrom before (c :: rest)
      = if isHeader before (c :: rest) then
          ([], (c :: (segmentsFrom (some c) rest).1) :: (segmentsFrom (some c) rest).2)
        else (c :: (segmentsFrom (some c) rest).1, (segmentsFrom (some c) rest).2) :=
  rfl

end CodeIndex.Sql
