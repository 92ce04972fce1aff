import CodeIndex.Proofs.Sql.Canonical

/-!
# Words, literals and lists that are read back

Each recogniser of a piece reads it to its end and leaves what follows, if what follows does
not continue the piece: a word ends before a boundary, a literal at its quote unless the quote
is doubled, a list at its parenthesis.  A text falls into words at any of its blanks.

* `word_append`, `singleQuoted_append`, `upToParen_append` : the pieces and what is left.
* `words_append_blank` : a blank separates the words on its two sides.
-/

namespace CodeIndex.Sql

open Text

/-- A run of characters is read up to the first character that does not belong to it. -/
theorem takeWhile_append_stop {p : Char → Bool} {w rest : List Char} (hw : ∀ c ∈ w, p c = true)
    (hrest : ∀ c, rest.head? = some c → p c = false) :
    (w ++ rest).takeWhile p = w ∧ (w ++ rest).dropWhile p = rest := by
  rw [List.takeWhile_append_of_pos hw, List.dropWhile_append_of_pos hw]
  cases rest with
  | nil => simp
  | cons c rest =>
      have hc : p c = false := hrest c rfl
      simp [hc]

/-- A word is read up to a boundary. -/
theorem word_append {w rest : List Char} (hne : w ≠ []) (hw : ∀ c ∈ w, isWordChar c = true)
    (hrest : isBoundary rest.head? = true) : word (w ++ rest) = some (w, rest) := by
  have hstop : ∀ c, rest.head? = some c → isWordChar c = false := by
    intro c hc
    rw [hc] at hrest
    simpa [isBoundary] using hrest
  obtain ⟨htake, hdrop⟩ := takeWhile_append_stop hw hstop
  unfold word
  rw [htake, hdrop]
  cases w with
  | nil => exact absurd rfl hne
  | cons c w => rfl

/-- A word is read up to a boundary. -/
theorem Word.read (name : Word) {rest : List Char} (hrest : isBoundary rest.head? = true) :
    word (name.chars ++ rest) = some (name.chars, rest) :=
  word_append name.ne_nil name.isWord hrest

/-- A literal is read up to a quote that is not doubled. -/
theorem singleQuoted_append {body rest : List Char} (hbody : ∀ c ∈ body, c ≠ '\'' ∧ c ≠ '\\')
    (hrest : rest.head? ≠ some '\'') :
    singleQuoted (body ++ '\'' :: rest) = some (body, rest) := by
  induction body with
  | nil =>
      cases rest with
      | nil => rfl
      | cons c rest =>
          have hc : c ≠ '\'' := fun h => hrest (by rw [h]; rfl)
          rw [List.nil_append, singleQuoted]
          intro more hmore
          exact hc (List.cons.inj hmore).1
  | cons c body ih =>
      obtain ⟨hquote, hescape⟩ := hbody c List.mem_cons_self
      have hread := ih fun d hd => hbody d (List.mem_cons_of_mem _ hd)
      rw [List.cons_append, singleQuoted, hread]
      · rfl
      all_goals simp_all

/-- A list is read up to its parenthesis. -/
theorem upToParen_append {body : List Char} (hbody : ∀ c ∈ body, c ≠ ')') (rest : List Char) :
    upToParen (body ++ ')' :: rest) = some (body, rest) := by
  induction body with
  | nil => rfl
  | cons c body ih =>
      have hread := ih fun d hd => hbody d (List.mem_cons_of_mem _ hd)
      simp [upToParen, hbody c List.mem_cons_self, hread]

/-- A blank ends the word being read. -/
theorem wordsFrom_append_blank {b : Char} (hb : isBlank b = true) (cur x y : List Char) :
    wordsFrom cur (x ++ b :: y) = wordsFrom cur x ++ words y := by
  induction x generalizing cur with
  | nil => cases cur <;> simp [wordsFrom, hb, words]
  | cons c x ih =>
      by_cases hc : isBlank c = true
      · cases cur <;> simp [wordsFrom, hc, ih]
      · simp [wordsFrom, hc, ih]

/-- **Words fall apart at blanks.**  A blank separates the words on its two sides. -/
theorem words_append_blank {b : Char} (hb : isBlank b = true) (x y : List Char) :
    words (x ++ b :: y) = words x ++ words y :=
  wordsFrom_append_blank hb [] x y

/-- A text without blanks goes on with the word being read. -/
theorem wordsFrom_of_not_blank {w : List Char} (hw : ∀ c ∈ w, isBlank c = false)
    {cur : List Char} (hne : cur ++ w ≠ []) : wordsFrom cur w = [cur ++ w] := by
  induction w generalizing cur with
  | nil =>
      rw [List.append_nil] at hne ⊢
      simp [wordsFrom, hne]
  | cons c w ih =>
      have hrest : ∀ d ∈ w, isBlank d = false := fun d hd => hw d (List.mem_cons_of_mem _ hd)
      have hnext : (cur ++ [c]) ++ w ≠ [] := by simp
      have hread := ih hrest hnext
      simpa [wordsFrom, hw c List.mem_cons_self] using hread

/-- A text without blanks is one word. -/
theorem words_of_not_blank {w : List Char} (hw : ∀ c ∈ w, isBlank c = false) (hne : w ≠ []) :
    words w = [w] := by
  have hnext : [] ++ w ≠ [] := hne
  exact wordsFrom_of_not_blank hw hnext

/-! ## Silence of values -/

/-- What is searched for starts with a keyword. -/
theorem isKeyword_of_mem_searched :
    (∀ word ∈ searchedKeywords, IsKeyword word ∧ word.toList ≠ []) ∧
    ∀ words ∈ searchedPhrases, (IsKeyword words.1 ∧ words.1.toList ≠ []) ∧
      IsKeyword words.2 ∧ words.2.toList ≠ [] := by
  decide

/-- No keyword that is searched for starts in a written literal. -/
theorem Literal.silent_keyword (text : Literal) {word : String} (hword : word ∈ searchedKeywords)
    (rest : List Char) : Silent (keyword word) text.text rest := by
  obtain ⟨hkey, hne⟩ := isKeyword_of_mem_searched.1 word hword
  have hquote : ∀ cs, keyword word ('\'' :: cs) = none :=
    keyword_cons_of_not_word hkey hne (by decide)
  have hchars : Silent (keyword word) text.chars ('\'' :: rest) :=
    (silent_keyword_iff hkey rfl).mpr (text.quiet.keywords word hword)
  exact ⟨hquote _, silent_append.mpr ⟨hchars, hquote _, trivial⟩⟩

/-- No two words that are searched for start in a written literal. -/
theorem Literal.silent_phrase (text : Literal) {words : String × String}
    (hwords : words ∈ searchedPhrases) (rest : List Char) :
    Silent (phrase words.1 words.2) text.text rest := by
  obtain ⟨⟨hfirst, hfirstNe⟩, hsecond, hsecondNe⟩ := isKeyword_of_mem_searched.2 words hwords
  have hquote : ∀ cs, phrase words.1 words.2 ('\'' :: cs) = none := fun cs =>
    phrase_eq_none (keyword_cons_of_not_word hfirst hfirstNe (by decide) cs) _
  have hnext : keyword words.2 (trimStart ('\'' :: rest)) = none :=
    keyword_cons_of_not_word hsecond hsecondNe (by decide) rest
  have hchars : Silent (phrase words.1 words.2) text.chars ('\'' :: rest) :=
    (silent_phrase_iff hfirst hsecond rfl hnext).mpr (text.quiet.phrases words hwords)
  exact ⟨hquote _, silent_append.mpr ⟨hchars, hquote _, trivial⟩⟩

end CodeIndex.Sql
