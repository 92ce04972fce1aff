import Mathlib.Tactic.ByContra
import CodeIndex.Sql.Pattern

/-!
# Classes of characters against each other

The blanks are few, so that none of them is a word character or a digit is a finite check.
The spellings of an upper-case letter are that letter, its lower-case form and, for two
letters, one character outside ASCII; all of them are word characters.

* `isWordChar_of_isBlank` : a blank stands in no word.
* `isWordChar_of_foldsTo` : a keyword is spelled with word characters.
-/

namespace CodeIndex.Text

/-- What holds of all characters of a text is decided along the text. -/
instance (priority := high) decidableForallMem (p : Char → Prop) [DecidablePred p]
    (cs : List Char) : Decidable (∀ c, c ∈ cs → p c) :=
  List.decidableBAll p cs

/-- The code points of the blanks. -/
def blankCodes : List Nat :=
  [9, 10, 11, 12, 13, 0x20, 0x85, 0xa0, 0x1680, 0x2000, 0x2001, 0x2002, 0x2003, 0x2004, 0x2005,
    0x2006, 0x2007, 0x2008, 0x2009, 0x200a, 0x2028, 0x2029, 0x202f, 0x205f, 0x3000]

/-- A blank is one of the listed characters. -/
theorem mem_blankCodes_of_isBlank {c : Char} (h : isBlank c = true) : c.toNat ∈ blankCodes := by
  simp only [isBlank, Bool.or_eq_true, Bool.and_eq_true, decide_eq_true_eq, beq_iff_eq] at h
  simp only [blankCodes, List.mem_cons, List.not_mem_nil, or_false]
  omega

/-- What holds of each listed character holds of each blank. -/
theorem forall_of_isBlank {p : Char → Bool}
    (h : (blankCodes.all fun n => p (Char.ofNat n)) = true) {c : Char}
    (hc : isBlank c = true) : p c = true := by
  have := List.all_eq_true.mp h c.toNat (mem_blankCodes_of_isBlank hc)
  rwa [Char.ofNat_toNat] at this

/-- A blank stands in no word. -/
theorem isWordChar_of_isBlank {c : Char} (hc : isBlank c = true) : isWordChar c = false := by
  have := forall_of_isBlank (p := fun c => !isWordChar c) (by decide +kernel) hc
  simpa using this

/-- A blank is no digit. -/
theorem isDecimal_of_isBlank {c : Char} (hc : isBlank c = true) : isDecimal c = false := by
  have := forall_of_isBlank (p := fun c => !isDecimal c) (by decide +kernel) hc
  simpa using this

/-- A digit is no blank. -/
theorem isBlank_of_isDecimal {c : Char} (hc : isDecimal c = true) : isBlank c = false := by
  by_contra hb
  simp [isDecimal_of_isBlank (by simpa using hb)] at hc

/-- A word character is no blank. -/
theorem isBlank_of_isWordChar {c : Char} (hc : isWordChar c = true) : isBlank c = false := by
  by_contra hb
  simp [isWordChar_of_isBlank (by simpa using hb)] at hc

end CodeIndex.Text

namespace CodeIndex.Sql

open Text

/-- An ASCII letter, digit or underscore is a word character. -/
theorem isWordChar_of_isAlphanum {c : Char} (h : c.isAlphanum = true ∨ c = '_') :
    isWordChar c = true := by
  have hascii : c.toNat < 128 := by
    rcases h with h | rfl
    · delta Char.isAlphanum Char.isAlpha Char.isUpper Char.isLower Char.isDigit at h
      simp only [Bool.or_eq_true, Bool.and_eq_true, decide_eq_true_eq,
        UInt32.le_iff_toNat_le] at h
      change ((65 ≤ c.toNat ∧ c.toNat ≤ 90) ∨ (97 ≤ c.toNat ∧ c.toNat ≤ 122)) ∨
        (48 ≤ c.toNat ∧ c.toNat ≤ 57) at h
      omega
    · decide
  rcases h with h | rfl
  · simp [isWordChar, hascii, h]
  · decide

/-- Upper-casing changes lower-case letters only. -/
theorem toUpper_of_not_isLower {c : Char} (h : c.isLower = false) : c.toUpper = c := by
  unfold Char.toUpper
  rw [dif_neg]
  intro hrange
  have hlow : c.isLower = true := by
    delta Char.isLower
    simp only [Bool.and_eq_true, decide_eq_true_eq]
    exact hrange
  simp [hlow] at h

/-- A keyword is spelled with word characters. -/
theorem isWordChar_of_foldsTo {letter c : Char} (hletter : letter.isUpper = true ∨ letter = '_')
    (h : foldsTo letter c = true) : isWordChar c = true := by
  simp only [foldsTo, Bool.or_eq_true, Bool.and_eq_true, beq_iff_eq] at h
  rcases h with (h | ⟨-, h⟩) | ⟨-, h⟩
  · apply isWordChar_of_isAlphanum
    cases hlow : c.isLower with
    | true =>
        refine .inl ?_
        show (c.isUpper || c.isLower || c.isDigit) = true
        simp [hlow]
    | false =>
        rw [toUpper_of_not_isLower hlow] at h
        subst h
        refine hletter.imp_left fun hup => ?_
        show (c.isUpper || c.isLower || c.isDigit) = true
        simp [hup]
  · rw [← Char.ofNat_toNat c, h]
    decide +kernel
  · rw [← Char.ofNat_toNat c, h]
    decide +kernel

/-- A character that stands in no word spells no letter of a keyword. -/
theorem foldsTo_of_not_isWordChar {letter c : Char}
    (hletter : letter.isUpper = true ∨ letter = '_') (hc : isWordChar c = false) :
    foldsTo letter c = false := by
  by_contra hfold
  rw [Bool.not_eq_false] at hfold
  rw [isWordChar_of_foldsTo hletter hfold] at hc
  cases hc

/-- Word characters differ from all others. -/
theorem ne_of_isWordChar {c d : Char} (hc : isWordChar c = true) (hd : isWordChar d = false) :
    c ≠ d := by
  rintro rfl
  rw [hc] at hd
  cases hd

end CodeIndex.Sql
