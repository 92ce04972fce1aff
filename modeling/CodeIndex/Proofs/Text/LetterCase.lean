import CodeIndex.Text.Lower
import CodeIndex.Text.Slice
import CodeIndex.Proofs.Text.CharClass

/-!
# The case of ASCII letters

Names are compared up to the case of ASCII letters, and searched for in their full lower-case
form.  The two agree: an ASCII letter keeps its lower-case form, its having case and its being no
blank whatever its own case is, so the final sigma beside it is not touched either.

* `asciiLower_cases` : the characters that a change of case can touch.
* `lower_map_asciiLower` : the lower-case form of a text is that of its ASCII letters lower-cased.
* `trim_map_asciiLower`, `dropWhile_map_asciiLower` : cuts at classes of characters.
* `lowered_congr`, `trimmed_congr` : names that are the same have one lower-case form, and stay the
  same without outer blanks.
-/

namespace CodeIndex.Text

/-! ## Characters -/

/-- The ASCII capitals. -/
def capitals : List Char := (List.range 26).map fun i => Char.ofNat (65 + i)

/-- Only the capital letters are changed. -/
theorem asciiLower_cases (c : Char) : asciiLower c = c ∨ c ∈ capitals := by
  delta asciiLower Char.toLower
  split
  · rename_i hrange
    refine .inr (List.mem_map.mpr ⟨c.toNat - 65, ?_, ?_⟩)
    · have hle : c.toNat ≤ 90 := hrange.2
      rw [List.mem_range]
      omega
    · have hge : 65 ≤ c.toNat := hrange.1
      rw [Nat.add_sub_cancel' hge, Char.ofNat_toNat]
  · exact .inl rfl

/-- What does not see the case of the capitals does not see the case of any ASCII letter. -/
theorem asciiLower_blind {α : Type} {f : Char → α} (h : ∀ c ∈ capitals, f (asciiLower c) = f c)
    (c : Char) : f (asciiLower c) = f c := by
  rcases asciiLower_cases c with hsame | hcapital
  · rw [hsame]
  · exact h c hcapital

/-- Whether a character is blank does not depend on its case. -/
theorem isBlank_asciiLower : ∀ c, isBlank (asciiLower c) = isBlank c :=
  asciiLower_blind (by decide)

/-- A capital is cased as its small letter is. -/
theorem isCased_asciiLower : ∀ c, isCased (asciiLower c) = isCased c :=
  asciiLower_blind (by decide)

/-- A capital is ignorable as its small letter is. -/
theorem isCaseIgnorable_asciiLower : ∀ c, isCaseIgnorable (asciiLower c) = isCaseIgnorable c :=
  asciiLower_blind (by decide)

/-- A capital has the lower case of its small letter. -/
theorem lowerChar_asciiLower : ∀ c, lowerChar (asciiLower c) = lowerChar c :=
  asciiLower_blind (by decide)

/-- No letter is a backslash. -/
theorem beq_backslash_asciiLower : ∀ c, (asciiLower c == '\\') = (c == '\\') :=
  asciiLower_blind (f := (· == '\\')) (by decide)

/-! ## Texts -/

/-- Texts are the same up to case if their small letters agree. -/
theorem sameIgnoringCase_iff {a b : List Char} :
    sameIgnoringCase a b = true ↔ a.map asciiLower = b.map asciiLower := by
  rw [sameIgnoringCase, beq_iff_eq]

/-- A class that ignores case drops the same characters in front. -/
theorem dropWhile_map_asciiLower {p : Char → Bool} (h : ∀ c, p (asciiLower c) = p c)
    (cs : List Char) :
    (cs.map asciiLower).dropWhile p = (cs.dropWhile p).map asciiLower := by
  have hblind : p ∘ asciiLower = p := funext h
  rw [List.dropWhile_map, hblind]

/-- A class that ignores case drops the same characters at the end. -/
theorem dropTail_map_asciiLower {p : Char → Bool} (h : ∀ c, p (asciiLower c) = p c)
    (cs : List Char) : dropTail p (cs.map asciiLower) = (dropTail p cs).map asciiLower := by
  rw [dropTail, dropTail, ← List.map_reverse, dropWhile_map_asciiLower h, List.map_reverse]

/-- Trimming does not see the case. -/
theorem trim_map_asciiLower (cs : List Char) :
    trim (cs.map asciiLower) = (trim cs).map asciiLower := by
  rw [trim, trim, trimStart, trimStart, trimEnd, trimEnd,
    dropWhile_map_asciiLower isBlank_asciiLower, dropTail_map_asciiLower isBlank_asciiLower]

/-- Whether a cased character follows does not depend on the case. -/
theorem nextIsCased_map_asciiLower (cs : List Char) :
    nextIsCased (cs.map asciiLower) = nextIsCased cs := by
  rw [nextIsCased, nextIsCased, dropWhile_map_asciiLower isCaseIgnorable_asciiLower]
  cases cs.dropWhile isCaseIgnorable with
  | nil => rfl
  | cons c rest => exact isCased_asciiLower c

/-- The lower-case form does not depend on the case. -/
theorem lowerFrom_map_asciiLower (before cs : List Char) :
    lowerFrom (before.map asciiLower) (cs.map asciiLower) = lowerFrom before cs := by
  induction cs generalizing before with
  | nil => rfl
  | cons c cs ih =>
      have hdotted : ((asciiLower c).toNat == 0x130) = (c.toNat == 0x130) :=
        asciiLower_blind (f := fun c => c.toNat == 0x130) (by decide) c
      have hsigma : ((asciiLower c).toNat == 0x3a3) = (c.toNat == 0x3a3) :=
        asciiLower_blind (f := fun c => c.toNat == 0x3a3) (by decide) c
      have hrest := ih (c :: before)
      rw [List.map_cons] at hrest
      rw [List.map_cons, lowerFrom, lowerFrom, hdotted, hsigma, hrest, lowerChar_asciiLower,
        nextIsCased_map_asciiLower, nextIsCased_map_asciiLower]

/-- The lower-case form does not see the case of ASCII letters. -/
theorem lower_map_asciiLower (cs : List Char) : lower (cs.map asciiLower) = lower cs :=
  lowerFrom_map_asciiLower [] cs

end CodeIndex.Text

namespace CodeIndex

open Text

/-! ## Names -/

variable {a b c : String}

/-- Names are the same if their small letters agree. -/
theorem sameName_iff : sameName a b = true ↔ a.toList.map asciiLower = b.toList.map asciiLower :=
  sameIgnoringCase_iff

/-- A name is the same as itself. -/
@[simp] theorem sameName_refl (a : String) : sameName a a = true := sameName_iff.mpr rfl

/-- A name is told from others by any of its spellings. -/
theorem sameName_congr (h : sameName b c = true) (a : String) : sameName a b = sameName a c := by
  rw [sameName, sameName, sameIgnoringCase, sameIgnoringCase, sameName_iff.mp h]

/-- Names that are the same have one lower-case form. -/
theorem lowered_congr (h : sameName a b = true) : lowered a = lowered b := by
  rw [lowered, lowered, ← lower_map_asciiLower a.toList, sameName_iff.mp h, lower_map_asciiLower]

/-- Names that are the same stay so when they are trimmed. -/
theorem trimmed_congr (h : sameName a b = true) : sameName (trimmed a) (trimmed b) = true := by
  rw [sameName_iff, trimmed, trimmed, String.toList_ofList, String.toList_ofList,
    ← trim_map_asciiLower, ← trim_map_asciiLower, sameName_iff.mp h]

/-- Names that are the same are empty together. -/
theorem isEmpty_congr (h : sameName a b = true) : a.isEmpty = b.isEmpty := by
  have hlength := congrArg List.length (sameName_iff.mp h)
  simp only [List.length_map, String.length_toList] at hlength
  rw [Bool.eq_iff_iff, String.isEmpty_iff, String.isEmpty_iff, ← String.length_eq_zero_iff, hlength,
    String.length_eq_zero_iff]

end CodeIndex
