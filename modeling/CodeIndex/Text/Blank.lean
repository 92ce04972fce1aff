/-!
# Blank characters

White space as the Unicode property of that name defines it, and the cuts that
depend on it: trimming, and splitting a text into its blank-free words.

* `trim_eq_self` : a text that neither starts nor ends blank is its own trim.
-/

namespace CodeIndex.Text

/-- The characters with the Unicode property White_Space. -/
def isBlank (c : Char) : Bool :=
  let n := c.toNat
  (9 ≤ n && n ≤ 13) || n == 0x20 || n == 0x85 || n == 0xa0 || n == 0x1680 ||
    (0x2000 ≤ n && n ≤ 0x200a) || n == 0x2028 || n == 0x2029 || n == 0x202f ||
    n == 0x205f || n == 0x3000

/-- Drop the leading blanks. -/
def trimStart (cs : List Char) : List Char := cs.dropWhile isBlank

/-- Drop the longest tail whose characters all satisfy `p`. -/
def dropTail (p : Char → Bool) (cs : List Char) : List Char :=
  (cs.reverse.dropWhile p).reverse

/-- Drop the trailing blanks. -/
def trimEnd (cs : List Char) : List Char := dropTail isBlank cs

/-- Drop the blanks at both ends. -/
def trim (cs : List Char) : List Char := trimEnd (trimStart cs)

/-- Drop the characters satisfying `p` at both ends. -/
def trimMatches (p : Char → Bool) (cs : List Char) : List Char :=
  dropTail p (cs.dropWhile p)

/-- The blank-free words of a text, in order.  `cur` is the word being read. -/
def wordsFrom (cur : List Char) : List Char → List (List Char)
  | [] => if cur.isEmpty then [] else [cur]
  | c :: rest =>
    if isBlank c then
      if cur.isEmpty then wordsFrom [] rest else cur :: wordsFrom [] rest
    else wordsFrom (cur ++ [c]) rest

/-- The maximal blank-free runs of a text. -/
def words (cs : List Char) : List (List Char) := wordsFrom [] cs

/-- Every blank of the standard library's character class is blank here. -/
theorem isBlank_of_isWhitespace (c : Char) (h : c.isWhitespace = true) :
    isBlank c = true := by
  simp only [Char.isWhitespace, Bool.or_eq_true, decide_eq_true_eq] at h
  rcases h with ((rfl | rfl) | rfl) | rfl <;> rfl

/-- A text that neither starts nor ends with a character of the class keeps its tail. -/
theorem dropTail_eq_self {p : Char → Bool} {cs : List Char}
    (h : ∀ c, cs.getLast? = some c → p c = false) : dropTail p cs = cs := by
  unfold dropTail
  cases hr : cs.reverse with
  | nil => simpa using (List.reverse_eq_nil_iff.mp hr).symm
  | cons c rest =>
    have hc : cs.getLast? = some c := by
      rw [← List.head?_reverse, hr, List.head?_cons]
    rw [List.dropWhile_cons_of_neg (by simp [h c hc]), ← hr, List.reverse_reverse]

/-- Trimming changes nothing when the first and the last character are not blank. -/
theorem trim_eq_self {cs : List Char}
    (hhead : ∀ c, cs.head? = some c → isBlank c = false)
    (hlast : ∀ c, cs.getLast? = some c → isBlank c = false) : trim cs = cs := by
  have hstart : trimStart cs = cs := by
    cases cs with
    | nil => rfl
    | cons c rest => exact List.dropWhile_cons_of_neg (by simp [hhead c rfl])
  rw [trim, hstart]
  exact dropTail_eq_self hlast

end CodeIndex.Text
