import CodeIndex.Proofs.Sql.Search

/-!
# The texts of a column

A column that was read from a script has a name of word characters, and a type whose words have
single spaces between them, so neither of the two holds a line break.  Its default is a literal, a
list in parentheses or a word, and has no blanks around it; what stands inside it is as in the
script, and so is the comment.

* `mem_words` : words are not empty and hold no blank.
* `tight_join_words`, `eq_space_of_mem_join_words` : a type.
* `tight_defaultText` : a default.
* `recorded_of_mem_parseTables` : the columns of a table.
-/

namespace CodeIndex.Sql

open Text

/-! ## Words with spaces between them -/

/-- A word is not empty and holds no blank. -/
theorem mem_words {w cs : List Char} (h : w ∈ words cs) : w ≠ [] ∧ ∀ c ∈ w, isBlank c = false := by
  have hfrom : ∀ cs cur : List Char, (∀ c ∈ cur, isBlank c = false) → w ∈ wordsFrom cur cs →
      w ≠ [] ∧ ∀ c ∈ w, isBlank c = false := by
    intro cs
    induction cs with
    | nil =>
        intro cur hcur hw
        rw [wordsFrom] at hw
        split at hw
        · cases hw
        · rename_i hne
          rw [List.mem_singleton.mp hw]
          exact ⟨by simpa using hne, hcur⟩
    | cons c cs ih =>
        intro cur hcur hw
        rw [wordsFrom] at hw
        split at hw
        · split at hw
          · exact ih [] (by simp) hw
          · rename_i hne
            rcases List.mem_cons.mp hw with rfl | hw
            · exact ⟨by simpa using hne, hcur⟩
            · exact ih [] (by simp) hw
        · rename_i hc
          refine ih (cur ++ [c]) ?_ hw
          intro d hd
          rcases List.mem_append.mp hd with hd | hd
          · exact hcur d hd
          · rw [List.mem_singleton.mp hd]
            simpa using hc
  exact hfrom cs [] (by simp) h

/-- Words joined by spaces are tight. -/
theorem tight_join_words (cs : List Char) : Tight (join [' '] (words cs)) := by
  have hjoin : ∀ ws : List (List Char), (∀ w ∈ ws, w ≠ [] ∧ ∀ c ∈ w, isBlank c = false) →
      Tight (join [' '] ws) ∧ (ws ≠ [] → join [' '] ws ≠ []) := by
    intro ws hws
    induction ws with
    | nil => exact ⟨tight_of_not_blank (by simp [join]), fun h => absurd rfl h⟩
    | cons w ws ih =>
        obtain ⟨hne, hword⟩ := hws w List.mem_cons_self
        have htight := tight_of_not_blank hword
        by_cases hlast : ws = []
        · rw [hlast]
          exact ⟨htight, fun _ => hne⟩
        · obtain ⟨hrest, hrestNe⟩ := ih fun v hv => hws v (List.mem_cons_of_mem _ hv)
          rw [join_cons hlast]
          refine ⟨⟨?_, ?_⟩, by simp [hne]⟩
          · intro c hc
            rw [List.append_assoc, List.head?_append_of_ne_nil _ hne] at hc
            exact htight.head c hc
          · intro c hc
            rw [List.getLast?_append_of_ne_nil _ (hrestNe hlast)] at hc
            exact hrest.last c hc
  exact (hjoin _ fun _ => mem_words).1

/-- A character of a joined text is in a part or in a separator. -/
theorem mem_join {sep : List Char} {parts : List (List Char)} {c : Char} (h : c ∈ join sep parts) :
    c ∈ sep ∨ ∃ part ∈ parts, c ∈ part := by
  induction parts with
  | nil => simp [join] at h
  | cons part parts ih =>
      by_cases hlast : parts = []
      · subst hlast
        exact .inr ⟨part, List.mem_cons_self, h⟩
      · rw [join_cons hlast, List.mem_append, List.mem_append] at h
        rcases h with (h | h) | h
        · exact .inr ⟨part, List.mem_cons_self, h⟩
        · exact .inl h
        · refine (ih h).imp_right ?_
          rintro ⟨other, hother, hmem⟩
          exact ⟨other, List.mem_cons_of_mem _ hother, hmem⟩

/-- The only blanks between joined words are spaces. -/
theorem eq_space_of_mem_join_words {c : Char} {cs : List Char} (h : c ∈ join [' '] (words cs))
    (hc : isBlank c = true) : c = ' ' := by
  rcases mem_join h with hspace | ⟨w, hw, hmem⟩
  · exact List.mem_singleton.mp hspace
  · rw [(mem_words hw).2 c hmem] at hc
    cases hc

/-! ## Defaults -/

/-- A text between two characters that are not blank is tight. -/
theorem tight_between {a b : Char} (ha : isBlank a = false) (hb : isBlank b = false)
    (body : List Char) : Tight (a :: body ++ [b]) := by
  constructor
  · intro c hc
    rw [← Option.some.inj hc]
    exact ha
  · intro c hc
    rw [List.getLast?_concat] at hc
    rw [← Option.some.inj hc]
    exact hb

/-- A default has no blanks around it. -/
theorem tight_defaultText {cs text : List Char} (h : defaultText cs = some text) : Tight text := by
  rw [defaultText_eq] at h
  simp only [Option.or_eq_some_iff, Option.map_eq_some_iff] at h
  rcases h with ⟨p, -, rfl⟩ | ⟨-, ⟨p, -, rfl⟩ | ⟨-, ⟨p, -, rfl⟩ | ⟨-, h⟩⟩⟩
  · exact tight_between rfl rfl p.1
  · exact tight_between rfl rfl p.1
  · exact tight_between rfl rfl p.1
  · split at h
    · cases h
    · rw [← Option.some.inj h]
      refine tight_of_not_blank ?_
      intro c hc
      have hchar := List.mem_takeWhile_imp hc
      simp only [Bool.and_eq_true, Bool.not_eq_true'] at hchar
      exact hchar.1

/-! ## Columns -/

/-- What the texts of a column look like that was read from a script. -/
structure Recorded (c : Column) : Prop where
  name : ∀ d ∈ c.name.toList, isWordChar d = true
  type : Tight c.type.toList
  spaces : ∀ d ∈ c.type.toList, isBlank d = true → d = ' '
  default : ∀ text, c.default = some text → Tight text.toList

/-- What is read as a column has the texts of one. -/
theorem recorded_of_parseColumn {part : List Char} {c : Column} (h : parseColumn part = some c) :
    Recorded c := by
  obtain ⟨head, hhead, rfl⟩ := columnHead_of_parseColumn h
  constructor
  · simp only [columnHead, Option.bind_eq_bind, Option.bind_eq_some_iff] at hhead
    obtain ⟨⟨name, rest⟩, hname, typed, -, left, -, heq⟩ := hhead
    cases heq
    rw [columnOf, String.toList_ofList]
    exact (word_split hname).2.2
  · rw [columnOf, String.toList_ofList]
    exact tight_join_words _
  · rw [columnOf, String.toList_ofList]
    exact fun d => eq_space_of_mem_join_words
  · intro text htext
    simp only [columnOf, searchFirst, Option.map_eq_some_iff] at htext
    obtain ⟨value, ⟨⟨front, found⟩, hsearch, rfl⟩, rfl⟩ := htext
    obtain ⟨behind, -, -, -, hfound, -⟩ := search_eq_some_iff.mp hsearch
    simp only [columnDefault, Option.bind_eq_bind, Option.bind_eq_some_iff] at hfound
    obtain ⟨left, -, value, -, hdefault⟩ := hfound
    rw [String.toList_ofList]
    exact tight_defaultText hdefault

/-- The columns of a table come from the parts of its body. -/
theorem recorded_of_mem_parseTables {placeholder script : String} {t : Table}
    (h : t ∈ parseTables placeholder script) : ∀ c ∈ t.columns, Recorded c := by
  obtain ⟨segment, name, rest, body, tail, -, -, -, -, -, hcolumns, -⟩ :=
    exists_of_mem_parseTables h
  intro c hc
  rw [hcolumns] at hc
  obtain ⟨part, -, hpart⟩ := List.mem_filterMap.mp hc
  split at hpart
  · cases hpart
  · exact recorded_of_parseColumn hpart

end CodeIndex.Sql
