import CodeIndex.Proofs.Sql.Reading
import CodeIndex.Proofs.Text.Squeeze

/-!
# Readings that keep to the layout

A reading is steady when squeezing the text it is given squeezes what it finds and changes
nothing else.  The recognisers of pieces are steady because what they look for is not blank, or
is any number of blanks.  The scans over quotes and parentheses are, because a whole run of
blanks takes their state to one and the same state.

* `keyword_steady`, `blanks_steady`, `word_steady` : the recognisers.
* `singleQuoted_steady`, `doubleQuoted_steady` : the literals.
* `search_steady` : looking for a piece that starts with no blank.
* `closingParen_steady`, `statementEnd_squeeze`, `splitTopLevel_squeeze` : the scans.
-/

namespace CodeIndex.Sql

open Text

variable {α β : Type}

/-- What is read from a squeezed text is what is read from the text, with `f` applied. -/
abbrev Steady (read : List Char → Option α) (f : α → α) : Prop := Carries squeeze read f

/-! ## Recognisers -/

/-- Letters are read alike of a squeezed text. -/
theorem afterLetters_squeeze {letters : List Char}
    (hletters : ∀ letter ∈ letters, letter.isUpper = true ∨ letter = '_') (cs : List Char) :
    afterLetters letters (squeeze cs) = (afterLetters letters cs).map squeeze := by
  induction letters generalizing cs with
  | nil => rfl
  | cons letter letters ih =>
      have hblank : ∀ {c}, isBlank c = true → foldsTo letter c = false := fun hc =>
        foldsTo_of_not_isWordChar (hletters letter List.mem_cons_self) (isWordChar_of_isBlank hc)
      cases cs with
      | nil => rfl
      | cons c cs =>
          by_cases hc : isBlank c = true
          · obtain ⟨d, rest, hd, heq⟩ := exists_squeeze_cons hc cs
            simp [heq, afterLetters, hblank hc, hblank hd]
          · rw [squeeze_cons_of_not_blank (by simpa using hc), afterLetters, afterLetters]
            split
            · exact ih (fun l hl => hletters l (List.mem_cons_of_mem _ hl)) cs
            · rfl

/-- Keywords do not see the spacing. -/
theorem keyword_steady {word : String} (hword : IsKeyword word) :
    Steady (keyword word) squeeze := by
  intro cs
  exact afterLetters_squeeze hword cs

theorem anyKeyword_steady {words : List String} (hwords : ∀ word ∈ words, IsKeyword word) :
    Steady (anyKeyword words) squeeze := by
  intro cs
  induction words with
  | nil => rfl
  | cons word words ih =>
      have hword := keyword_steady (hwords word List.mem_cons_self) cs
      have hmore := ih fun w hw => hwords w (List.mem_cons_of_mem _ hw)
      simp only [anyKeyword, List.findSome?_cons] at hmore ⊢
      rw [hword]
      cases keyword word cs with
      | none => exact hmore
      | some rest => rfl

/-- Squeezed blanks are read as blanks. -/
theorem blanks_steady : Steady blanks squeeze := by
  intro cs
  cases cs with
  | nil => rfl
  | cons c cs =>
      by_cases hc : isBlank c = true
      · obtain ⟨d, rest, hd, heq⟩ := exists_squeeze_cons hc cs
        have htrim : trimStart rest = squeeze (trimStart cs) := by
          have := trimStart_squeeze (c :: cs)
          rwa [heq, trimStart, trimStart, List.dropWhile_cons_of_pos hd,
            List.dropWhile_cons_of_pos hc] at this
        simp [heq, blanks, hc, hd, htrim]
      · have hc' : isBlank c = false := by simpa using hc
        simp [squeeze_cons_of_not_blank hc', blanks, hc']

/-- Symbols do not see the spacing. -/
theorem symbol_steady {sym : Char} (hsym : isBlank sym = false) :
    Steady (symbol sym) squeeze := by
  intro cs
  cases cs with
  | nil => rfl
  | cons c cs =>
      by_cases hc : isBlank c = true
      · obtain ⟨d, rest, hd, heq⟩ := exists_squeeze_cons hc cs
        simp [heq, symbol, ne_of_isBlank hc hsym, ne_of_isBlank hd hsym]
      · rw [squeeze_cons_of_not_blank (by simpa using hc), symbol, symbol]
        split <;> rfl

/-- Optional quotes do not see the spacing. -/
theorem optionalMark_squeeze {marks : List Char} (hmarks : ∀ c ∈ marks, isBlank c = false)
    (cs : List Char) : optionalMark marks (squeeze cs) = squeeze (optionalMark marks cs) := by
  cases cs with
  | nil => rfl
  | cons c cs =>
      by_cases hc : isBlank c = true
      · obtain ⟨d, rest, hd, heq⟩ := exists_squeeze_cons hc cs
        have hout : ∀ {e}, isBlank e = true → e ∉ marks := by
          intro e he hmem
          rw [hmarks e hmem] at he
          cases he
        simp [heq, optionalMark, hout hc, hout hd]
      · have hc' : isBlank c = false := by simpa using hc
        rw [squeeze_cons_of_not_blank hc', optionalMark, optionalMark]
        split
        · rfl
        · rw [squeeze_cons_of_not_blank hc']

/-- A word does not see the spacing, as it holds no blank. -/
theorem word_steady : Steady word (Prod.map id squeeze) := by
  intro cs
  have htake := takeWhile_squeeze (fun c => isBlank_of_isWordChar (c := c)) cs
  have hdrop := dropWhile_squeeze (fun c => isBlank_of_isWordChar (c := c)) cs
  unfold word
  rw [htake, hdrop]
  cases cs.takeWhile isWordChar <;> rfl

/-- A text up to a parenthesis is squeezed on both sides of it. -/
theorem upToParen_steady : Steady upToParen (Prod.map squeeze squeeze) := by
  intro cs
  rw [upToParen_eq, upToParen_eq]
  exact splitOnce?_squeeze (by decide) cs

/-! ## Literals -/

/-- A run of blanks in front of what was read is squeezed by itself. -/
theorem map_withFront_run {run : List Char} (hrun : ∀ c ∈ run, isBlank c = true) {f : β → β}
    {found : Option (List Char × β)} (hfound : ∀ p, found = some p → Flush p.1) :
    (found.map (Prod.map squeeze f)).map (withFront (gap run))
      = (found.map (withFront run)).map (Prod.map squeeze f) := by
  cases found with
  | none => rfl
  | some p => simp [withFront, squeeze_run hrun (hfound p rfl)]

/-- A character in front of what was read, if it is no blank, stays as it is. -/
theorem map_withFront_char (front : List Char) (hfront : ∀ c ∈ front, isBlank c = false)
    {f : β → β} (found : Option (List Char × β)) :
    (found.map (Prod.map squeeze f)).map (withFront front)
      = (found.map (withFront front)).map (Prod.map squeeze f) := by
  cases found with
  | none => rfl
  | some p =>
      have hseam : Seam front p.1 := .inr fun c hc =>
        hfront c (List.mem_reverse.mp (List.mem_of_mem_head? hc))
      simp [withFront, squeeze_append hseam, squeeze_of_not_blank hfront]

/-- How the content of a literal in the quotes `q` is read up to its closing quote. -/
structure ReadsContent (q : Char) (read : List Char → Option (List Char × List Char)) : Prop where
  nil : read [] = none
  lone : read ['\\'] = none
  escape : ∀ c rest, read ('\\' :: c :: rest) = (read rest).map (withFront ['\\', c])
  plain : ∀ c rest, c ≠ '\\' → c ≠ q → read (c :: rest) = (read rest).map (withFront [c])
  split : ∀ cs p, read cs = some p → cs = p.1 ++ q :: p.2

namespace ReadsContent

variable {q : Char} {read : List Char → Option (List Char × List Char)}

/-- The content is read over blanks. -/
theorem run (h : ReadsContent q read) (hq : isBlank q = false) {run : List Char}
    (hrun : ∀ c ∈ run, isBlank c = true) (rest : List Char) :
    read (run ++ rest) = (read rest).map (withFront run) := by
  induction run with
  | nil =>
      rw [List.nil_append]
      cases read rest <;> rfl
  | cons c run ih =>
      have hc := hrun c List.mem_cons_self
      rw [List.cons_append, h.plain c _ (ne_of_isBlank hc (by decide)) (ne_of_isBlank hc hq),
        ih fun d hd => hrun d (List.mem_cons_of_mem _ hd)]
      cases read rest <;> rfl

/-- A backslash takes one blank of a run with it, and the others are content all the same. -/
theorem escape_run (h : ReadsContent q read) (hq : isBlank q = false) {run : List Char}
    (hne : run ≠ []) (hrun : ∀ c ∈ run, isBlank c = true) (rest : List Char) :
    read ('\\' :: (run ++ rest)) = ((read rest).map (withFront run)).map (withFront ['\\']) := by
  cases run with
  | nil => exact absurd rfl hne
  | cons c run =>
      rw [List.cons_append, h.escape,
        h.run hq (fun d hd => hrun d (List.mem_cons_of_mem _ hd))]
      cases read rest <;> rfl

/-- The content starts as its text does. -/
theorem flush (h : ReadsContent q read) {cs : List Char} (hcs : Flush cs)
    (p : List Char × List Char) (hp : read cs = some p) : Flush p.1 := by
  rw [h.split cs p hp] at hcs
  exact hcs.of_append

/-- The content of a literal is steady when its reading is at a closing quote. -/
theorem steady (h : ReadsContent q read) (hq : isBlank q = false)
    (close : ∀ rest, (∀ cs, cs.length ≤ rest.length →
        read (squeeze cs) = (read cs).map (Prod.map squeeze squeeze)) →
      read (q :: squeeze rest) = (read (q :: rest)).map (Prod.map squeeze squeeze)) :
    Steady read (Prod.map squeeze squeeze) := by
  intro cs
  -- on the length, since a backslash takes a whole run with it
  induction hn : cs.length using Nat.strongRecOn generalizing cs with
  | ind n ih =>
      have ih' : ∀ {m : Nat} (u : List Char), u.length ≤ m → m < n →
          read (squeeze u) = (read u).map (Prod.map squeeze squeeze) :=
        fun u hu hm => ih u.length (by omega) u rfl
      have hrunCase : ∀ {run rest : List Char}, (∀ c ∈ run, isBlank c = true) → Flush rest →
          rest.length < n → (read (squeeze rest)).map (withFront (gap run))
            = ((read rest).map (withFront run)).map (Prod.map squeeze squeeze) := by
        intro run rest hrun hrest hlt
        rw [ih' rest le_rfl hlt]
        exact map_withFront_run hrun (h.flush hrest)
      induction cs using runs_induction with
      | nil => rw [squeeze_nil, h.nil]; rfl
      | run run rest hne hrun hrest _ =>
          have hpos : 0 < run.length := List.length_pos_of_ne_nil hne
          rw [List.length_append] at hn
          rw [squeeze_run hrun hrest, h.run hq (isBlank_gap hrun), h.run hq hrun]
          exact hrunCase hrun hrest (by omega)
      | char c rest hc _ =>
          rw [List.length_cons] at hn
          rw [squeeze_cons_of_not_blank hc]
          by_cases hslash : c = '\\'
          · subst hslash
            cases rest using runs_induction with
            | nil => rw [squeeze_nil, h.lone]; rfl
            | char d rest hd _ =>
                rw [List.length_cons] at hn
                rw [squeeze_cons_of_not_blank hd, h.escape, h.escape, ih' rest le_rfl (by omega)]
                exact map_withFront_char ['\\', d] (by simp [hc, hd]) _
            | run run rest hne hrun hrest _ =>
                rw [List.length_append] at hn
                rw [squeeze_run hrun hrest, h.escape_run hq (gap_ne_nil hne) (isBlank_gap hrun),
                  h.escape_run hq hne hrun, hrunCase hrun hrest (by omega)]
                exact map_withFront_char ['\\'] (by simp [hc]) _
          · by_cases hquote : c = q
            · subst hquote
              exact close rest fun u hu => ih' u hu (by omega)
            · rw [h.plain c _ hslash hquote, h.plain c _ hslash hquote, ih' rest le_rfl (by omega)]
              exact map_withFront_char [c] (by simp [hc]) _

end ReadsContent

/-- The text in single quotes ends at the quote that closes it. -/
theorem singleQuoted_split (cs : List Char) (p : List Char × List Char)
    (h : singleQuoted cs = some p) : cs = p.1 ++ '\'' :: p.2 := by
  induction cs using singleQuoted.induct generalizing p with
  | case1 => simp [singleQuoted] at h
  | case2 c rest ih =>
      rw [singleQuoted, Option.map_eq_some_iff] at h
      obtain ⟨found, hfound, rfl⟩ := h
      rw [ih found hfound]
      rfl
  | case3 => simp [singleQuoted] at h
  | case4 rest body after hrest ih =>
      simp only [singleQuoted, hrest, Option.some.injEq] at h
      rw [← h, ih _ hrest]
      rfl
  | case5 rest hrest ih =>
      simp only [singleQuoted, hrest, Option.some.injEq] at h
      rw [← h]
      rfl
  | case6 rest hne =>
      rw [singleQuoted.eq_5 _ hne, Option.some.injEq] at h
      rw [← h]
      rfl
  | case7 c rest h₁ h₂ h₃ h₄ ih =>
      rw [singleQuoted.eq_6 _ _ h₁ h₂ h₃ h₄, Option.map_eq_some_iff] at h
      obtain ⟨found, hfound, rfl⟩ := h
      rw [ih found hfound]
      rfl

/-- Single quotes enclose a content. -/
theorem readsContent_singleQuoted : ReadsContent '\'' singleQuoted where
  nil := rfl
  lone := rfl
  escape c rest := by rw [singleQuoted]; rfl
  plain c rest hslash hquote := by
    rw [singleQuoted] <;> simp_all
    rfl
  split := singleQuoted_split

/-- A quote that no other follows closes the literal. -/
theorem singleQuoted_close {rest : List Char} (h : rest.head? ≠ some '\'') :
    singleQuoted ('\'' :: rest) = some ([], rest) := by
  cases rest with
  | nil => rfl
  | cons c rest =>
      have hc : c ≠ '\'' := by simpa using h
      rw [singleQuoted]
      intro more heq
      exact hc (List.cons.inj heq).1

/-- The content of single quotes is squeezed. -/
theorem singleQuoted_steady : Steady singleQuoted (Prod.map squeeze squeeze) := by
  have hquote : isBlank '\'' = false := by decide
  refine readsContent_singleQuoted.steady hquote fun rest ih => ?_
  by_cases hhead : rest.head? = some '\''
  · -- a doubled quote, unless the literal cannot be closed behind it
    obtain ⟨more, rfl⟩ : ∃ more, rest = '\'' :: more := by
      cases rest with
      | nil => cases hhead
      | cons c more => exact ⟨more, by rw [Option.some.inj hhead]⟩
    rw [squeeze_cons_of_not_blank hquote, singleQuoted, singleQuoted, ih more (by simp)]
    cases singleQuoted more <;> simp [squeeze_cons_of_not_blank hquote]
  · rw [singleQuoted_close (mt (head?_squeeze hquote).mp hhead), singleQuoted_close hhead]
    rfl

/-- The text in double quotes ends at the quote that closes it. -/
theorem doubleQuoted_split (cs : List Char) (p : List Char × List Char)
    (h : doubleQuoted cs = some p) : cs = p.1 ++ '"' :: p.2 := by
  induction cs using doubleQuoted.induct generalizing p with
  | case1 => simp [doubleQuoted] at h
  | case2 c rest ih =>
      rw [doubleQuoted, Option.map_eq_some_iff] at h
      obtain ⟨found, hfound, rfl⟩ := h
      rw [ih found hfound]
      rfl
  | case3 => simp [doubleQuoted] at h
  | case4 rest =>
      rw [doubleQuoted, Option.some.injEq] at h
      rw [← h]
      rfl
  | case5 c rest h₁ h₂ h₃ ih =>
      rw [doubleQuoted.eq_5 _ _ h₁ h₂ h₃, Option.map_eq_some_iff] at h
      obtain ⟨found, hfound, rfl⟩ := h
      rw [ih found hfound]
      rfl

/-- Double quotes enclose a content. -/
theorem readsContent_doubleQuoted : ReadsContent '"' doubleQuoted where
  nil := rfl
  lone := rfl
  escape c rest := by rw [doubleQuoted]; rfl
  plain c rest hslash hquote := by
    rw [doubleQuoted] <;> simp_all
    rfl
  split := doubleQuoted_split

/-- The content of double quotes is squeezed. -/
theorem doubleQuoted_steady : Steady doubleQuoted (Prod.map squeeze squeeze) :=
  readsContent_doubleQuoted.steady (by decide) fun _ _ => rfl

/-! ## Searching -/

section Search

variable {piece : List Char → Option α}

/-- A boundary stays one. -/
theorem isBoundary_squeeze (cs : List Char) :
    isBoundary (squeeze cs).head? = isBoundary cs.head? := by
  cases cs with
  | nil => rfl
  | cons c cs =>
      by_cases hc : isBlank c = true
      · obtain ⟨d, rest, hd, heq⟩ := exists_squeeze_cons hc cs
        simp [heq, isBoundary, isWordChar_of_isBlank hc, isWordChar_of_isBlank hd]
      · simp [squeeze_cons_of_not_blank (by simpa using hc)]

/-- Only whether a word may start here matters of the character in front. -/
theorem search_congr {before before' : Option Char} (h : isBoundary before = isBoundary before')
    (cs : List Char) : search piece before cs = search piece before' cs := by
  cases cs with
  | nil => rfl
  | cons c cs => rw [search, search, h]

/-- The search goes on behind a character where nothing is read. -/
theorem search_cons {before : Option Char} {c : Char} {rest : List Char}
    (h : isBoundary before = true → piece (c :: rest) = none) :
    search piece before (c :: rest) = (search piece (some c) rest).map (withFront [c]) := by
  rw [search]
  cases hb : isBoundary before with
  | false => rfl
  | true =>
      simp only [if_true, h hb]
      rfl

/-- A search goes over blanks to the start of the next word. -/
theorem search_run (hpiece : ∀ c rest, isBlank c = true → piece (c :: rest) = none)
    {run : List Char} (hrun : ∀ c ∈ run, isBlank c = true) (rest : List Char)
    {before : Option Char} (hbefore : run = [] → isBoundary before = true) :
    search piece before (run ++ rest) = (search piece none rest).map (withFront run) := by
  induction run generalizing before with
  | nil =>
      have hnone : isBoundary before = isBoundary none := hbefore rfl
      rw [List.nil_append, search_congr hnone]
      cases search piece none rest <;> rfl
  | cons c run ih =>
      have hc := hrun c List.mem_cons_self
      have hnext : run = [] → isBoundary (some c) = true := by
        intro _
        simp [isBoundary, isWordChar_of_isBlank hc]
      rw [List.cons_append, search_cons (fun _ => hpiece c _ hc),
        ih (fun d hd => hrun d (List.mem_cons_of_mem _ hd)) hnext]
      cases search piece none rest <;> rfl

/-- What the search passes over is in front of what it reads. -/
theorem search_split {before : Option Char} {cs : List Char} {p : List Char × α}
    (h : search piece before cs = some p) : ∃ rest, cs = p.1 ++ rest := by
  induction cs generalizing before p with
  | nil => simp [search] at h
  | cons c cs ih =>
      rw [search] at h
      split at h
      · rw [← Option.some.inj h]
        exact ⟨c :: cs, rfl⟩
      · rw [Option.map_eq_some_iff] at h
        obtain ⟨found, hfound, rfl⟩ := h
        obtain ⟨rest, hrest⟩ := ih hfound
        exact ⟨rest, by rw [hrest]; rfl⟩

/-- **Looking for a steady piece is steady**, if no piece starts with a blank. -/
theorem search_steady {f : α → α} (hsteady : Steady piece f)
    (hpiece : ∀ c rest, isBlank c = true → piece (c :: rest) = none) (before : Option Char) :
    Steady (search piece before) (Prod.map squeeze f) := by
  intro cs
  induction cs using runs_induction generalizing before with
  | nil => rfl
  | char c rest hc ih =>
      have hfirst : piece (c :: squeeze rest) = (piece (c :: rest)).map f := by
        rw [← squeeze_cons_of_not_blank hc, hsteady]
      have hmore := ih (some c)
      rw [squeeze_cons_of_not_blank hc, search, search, hfirst, hmore]
      by_cases hb : isBoundary before = true
      · rw [if_pos hb, if_pos hb]
        cases piece (c :: rest) with
        | none => exact map_withFront_char [c] (by simp [hc]) _
        | some a => rfl
      · rw [if_neg hb, if_neg hb]
        exact map_withFront_char [c] (by simp [hc]) _
  | run run rest hne hrun hrest ih =>
      rw [squeeze_run hrun hrest,
        search_run hpiece (isBlank_gap hrun) _ (fun h => absurd h (gap_ne_nil hne)),
        search_run hpiece hrun _ (fun h => absurd h hne), ih]
      refine map_withFront_run hrun fun p hp => ?_
      obtain ⟨tail, htail⟩ := search_split hp
      rw [htail] at hrest
      exact hrest.of_append

/-- The search for a piece that starts with no blank does not see the spacing. -/
theorem searchFirst_steady {f : α → α} (hsteady : Steady piece f)
    (hpiece : ∀ c rest, isBlank c = true → piece (c :: rest) = none) :
    Steady (searchFirst piece) f :=
  (search_steady hsteady hpiece none).map fun _ => rfl

theorem occurs_squeeze {f : α → α} (hsteady : Steady piece f)
    (hpiece : ∀ c rest, isBlank c = true → piece (c :: rest) = none) (cs : List Char) :
    occurs piece (squeeze cs) = occurs piece cs := by
  rw [occurs, occurs, search_steady hsteady hpiece none cs]
  cases search piece none cs <;> rfl

end Search

/-! ## Scans over quotes and parentheses -/

namespace QuoteState

/-- The quote that a scan is inside of is no blank. -/
def Fair (s : QuoteState) : Prop := ∀ q, s.quote = some q → isBlank q = false

/-- Outside quotes the state is fair. -/
theorem fair_outside : Fair outside := by
  intro q hq
  cases hq

/-- The state stays fair. -/
theorem Fair.step {s : QuoteState} (h : s.Fair) (c : Char) : (s.step c).Fair := by
  intro q hq
  unfold QuoteState.step at hq
  split at hq
  · rename_i p hp
    have hpq : p = q → isBlank q = false := fun heq => heq ▸ h p hp
    grind [outside]
  · rename_i hnone
    split at hq
    · rename_i hquote
      have hcq : c = q := by simpa using hq
      subst hcq
      simp only [Bool.or_eq_true, decide_eq_true_eq] at hquote
      rcases hquote with (rfl | rfl) | rfl <;> decide
    · rw [hnone] at hq
      cases hq

/-- A blank ends an escape and does nothing else. -/
theorem step_blank {s : QuoteState} (hs : s.Fair) {c : Char} (hc : isBlank c = true) :
    s.step c = ⟨s.quote, s.quote.isNone && s.escaped⟩ := by
  have hne : ∀ {d}, isBlank d = false → c ≠ d := fun hd => ne_of_isBlank hc hd
  obtain ⟨quote, escaped⟩ := s
  cases quote with
  | none =>
      simp [step, hne (show isBlank '\'' = false by decide),
        hne (show isBlank '"' = false by decide), hne (show isBlank '\x60' = false by decide)]
  | some q =>
      have hq : c ≠ q := hne (hs q rfl)
      cases escaped <;> simp [step, hne (show isBlank '\\' = false by decide), hq]

/-- **A whole run of blanks takes a scan to one state**, whatever the run is. -/
theorem foldl_step_blank {s : QuoteState} (hs : s.Fair) {run : List Char} (hne : run ≠ [])
    (hrun : ∀ c ∈ run, isBlank c = true) : run.foldl step s = s.step ' ' := by
  have hspace : isBlank ' ' = true := by decide
  induction run generalizing s with
  | nil => exact absurd rfl hne
  | cons c run ih =>
      have hc := hrun c List.mem_cons_self
      have hstep : s.step c = s.step ' ' := by rw [step_blank hs hc, step_blank hs hspace]
      rw [List.foldl_cons, hstep]
      by_cases hrest : run = []
      · rw [hrest]
        rfl
      · rw [ih (hs.step ' ') hrest (fun d hd => hrun d (List.mem_cons_of_mem _ hd)),
          step_blank (hs.step ' ') hspace, step_blank hs hspace]
        cases s.quote <;> rfl

end QuoteState

/-- The scan for the end of a body passes over blanks. -/
theorem closingParenFrom_run {run : List Char} (hrun : ∀ c ∈ run, isBlank c = true)
    (s : QuoteState) (depth : Nat) (rest : List Char) :
    closingParenFrom s depth (run ++ rest)
      = (closingParenFrom (run.foldl QuoteState.step s) depth rest).map (withFront run) := by
  induction run generalizing s with
  | nil =>
      rw [List.nil_append, List.foldl_nil]
      cases closingParenFrom s depth rest <;> rfl
  | cons c run ih =>
      have hne : ∀ {d}, isBlank d = false → c ≠ d :=
        fun hd => ne_of_isBlank (hrun c List.mem_cons_self) hd
      rw [List.cons_append, closingParenFrom_cons_other (.inr ⟨hne (by decide), hne (by decide)⟩),
        ih fun d hd => hrun d (List.mem_cons_of_mem _ hd), List.foldl_cons]
      cases closingParenFrom (run.foldl QuoteState.step (s.step c)) depth rest <;> rfl

/-- The body and the rest are squeezed. -/
theorem closingParenFrom_squeeze {s : QuoteState} (hs : s.Fair) (depth : Nat) (cs : List Char) :
    closingParenFrom s depth (squeeze cs)
      = (closingParenFrom s depth cs).map (Prod.map squeeze squeeze) := by
  induction cs using runs_induction generalizing s depth with
  | nil => rfl
  | char c rest hc ih =>
      have hfront : ∀ d, (closingParenFrom (s.step c) d (squeeze rest)).map (withFront [c])
          = ((closingParenFrom (s.step c) d rest).map (withFront [c])).map
            (Prod.map squeeze squeeze) := by
        intro d
        rw [ih (hs.step c)]
        exact map_withFront_char [c] (by simp [hc]) _
      rw [squeeze_cons_of_not_blank hc, closingParenFrom, closingParenFrom]
      split
      · split
        · exact hfront _
        · split
          · split
            · rfl
            · exact hfront _
          · exact hfront _
      · exact hfront _
  | run run rest hne hrun hrest ih =>
      rw [squeeze_run hrun hrest, closingParenFrom_run (isBlank_gap hrun),
        closingParenFrom_run hrun,
        QuoteState.foldl_step_blank hs (gap_ne_nil hne) (isBlank_gap hrun),
        QuoteState.foldl_step_blank hs hne hrun, ih (hs.step ' ')]
      refine map_withFront_run hrun fun p hp => ?_
      have hsplit : rest = p.1 ++ ')' :: p.2 := closingParenFrom_split hp
      rw [hsplit] at hrest
      exact hrest.of_append

/-- The end of a body does not depend on the spacing. -/
theorem closingParen_steady : Steady closingParen (Prod.map squeeze squeeze) := by
  intro cs
  exact closingParenFrom_squeeze QuoteState.fair_outside 0 cs

/-- The scan for the end of a statement passes over blanks. -/
theorem statementEndFrom_run {run : List Char} (hrun : ∀ c ∈ run, isBlank c = true)
    (s : QuoteState) (rest : List Char) : statementEndFrom s (run ++ rest)
      = run ++ statementEndFrom (run.foldl QuoteState.step s) rest := by
  induction run generalizing s with
  | nil => rfl
  | cons c run ih =>
      have hne : c ≠ ';' :=
        ne_of_isBlank (hrun c List.mem_cons_self) (by decide)
      rw [List.cons_append, statementEndFrom, if_neg (by simp [hne]),
        ih fun d hd => hrun d (List.mem_cons_of_mem _ hd)]
      rfl

/-- The text of a statement is squeezed. -/
theorem statementEndFrom_squeeze {s : QuoteState} (hs : s.Fair) (cs : List Char) :
    statementEndFrom s (squeeze cs) = squeeze (statementEndFrom s cs) := by
  induction cs using runs_induction generalizing s with
  | nil => rfl
  | char c rest hc ih =>
      rw [squeeze_cons_of_not_blank hc, statementEndFrom, statementEndFrom]
      split
      · rfl
      · rw [squeeze_cons_of_not_blank hc, ih (hs.step c)]
  | run run rest hne hrun hrest ih =>
      have hflush : Flush (statementEndFrom (s.step ' ') rest) := by
        obtain ⟨tail, htail⟩ := statementEndFrom_append rest (s.step ' ')
        rw [htail] at hrest
        exact hrest.of_append
      rw [squeeze_run hrun hrest, statementEndFrom_run (isBlank_gap hrun),
        statementEndFrom_run hrun,
        QuoteState.foldl_step_blank hs (gap_ne_nil hne) (isBlank_gap hrun),
        QuoteState.foldl_step_blank hs hne hrun, ih (hs.step ' '), squeeze_run hrun hflush]

/-- The end of a statement does not depend on the spacing. -/
theorem statementEnd_squeeze (cs : List Char) :
    statementEnd (squeeze cs) = squeeze (statementEnd cs) :=
  statementEndFrom_squeeze QuoteState.fair_outside cs

/-- The scan for commas passes over blanks. -/
theorem piecesFrom_run {run : List Char} (hrun : ∀ c ∈ run, isBlank c = true)
    (s : QuoteState) (depth : Nat) (rest : List Char) : piecesFrom s depth (run ++ rest)
      = (piecesFrom (run.foldl QuoteState.step s) depth rest).modifyHead (run ++ ·) := by
  induction run generalizing s with
  | nil =>
      rw [List.nil_append, List.foldl_nil]
      cases piecesFrom s depth rest <;> rfl
  | cons c run ih =>
      have hne : ∀ {d}, isBlank d = false → c ≠ d :=
        fun hd => ne_of_isBlank (hrun c List.mem_cons_self) hd
      have hcomma : c ≠ ',' := hne (by decide)
      have hopen : c ≠ '(' := hne (by decide)
      have hclose : c ≠ ')' := hne (by decide)
      rw [List.cons_append, piecesFrom_cons _ (by simp [hcomma])]
      simp only [hopen, hclose, decide_false, Bool.and_false, Bool.false_eq_true, if_false]
      rw [ih fun d hd => hrun d (List.mem_cons_of_mem _ hd), List.modifyHead_modifyHead]
      rfl

/-- The first piece starts as the text does. -/
theorem flush_head_piecesFrom {s : QuoteState} {depth : Nat} {cs : List Char} (h : Flush cs)
    {piece : List Char} (hpiece : (piecesFrom s depth cs).head? = some piece) : Flush piece := by
  cases cs with
  | nil =>
      rw [piecesFrom, List.head?_cons, Option.some.injEq] at hpiece
      rw [← hpiece]
      exact flush_nil
  | cons c cs =>
      by_cases hcut : (s.structural c && c = ',' && depth = 0) = true
      · rw [piecesFrom, if_pos hcut, List.head?_cons, Option.some.injEq] at hpiece
        rw [← hpiece]
        exact flush_nil
      · rw [piecesFrom_cons _ (by simpa using hcut), List.head?_modifyHead,
          Option.map_eq_some_iff] at hpiece
        obtain ⟨first, -, rfl⟩ := hpiece
        exact flush_cons.mpr (flush_cons.mp h)

/-- The pieces are squeezed. -/
theorem piecesFrom_squeeze {s : QuoteState} (hs : s.Fair) (depth : Nat) (cs : List Char) :
    piecesFrom s depth (squeeze cs) = (piecesFrom s depth cs).map squeeze := by
  induction cs using runs_induction generalizing s depth with
  | nil => rfl
  | char c rest hc ih =>
      rw [squeeze_cons_of_not_blank hc]
      by_cases hcut : (s.structural c && c = ',' && depth = 0) = true
      · rw [piecesFrom, piecesFrom, if_pos hcut, if_pos hcut, ih (hs.step c)]
        rfl
      · have hcut' : (s.structural c && c = ',' && depth = 0) = false := by simpa using hcut
        rw [piecesFrom_cons _ hcut', piecesFrom_cons _ hcut', ih (hs.step c)]
        cases piecesFrom (s.step c) _ rest with
        | nil => rfl
        | cons piece more => simp [squeeze_cons_of_not_blank hc]
  | run run rest hne hrun hrest ih =>
      rw [squeeze_run hrun hrest, piecesFrom_run (isBlank_gap hrun), piecesFrom_run hrun,
        QuoteState.foldl_step_blank hs (gap_ne_nil hne) (isBlank_gap hrun),
        QuoteState.foldl_step_blank hs hne hrun, ih (hs.step ' ')]
      cases hpieces : piecesFrom (s.step ' ') depth rest with
      | nil => rfl
      | cons piece more =>
          have hflush : Flush piece := flush_head_piecesFrom hrest (by rw [hpieces]; rfl)
          simp [squeeze_run hrun hflush]

/-- The parts of a body are squeezed. -/
theorem splitTopLevel_squeeze (cs : List Char) :
    splitTopLevel (squeeze cs) = (splitTopLevel cs).map squeeze := by
  rw [splitTopLevel, splitTopLevel, pieces, pieces, piecesFrom_squeeze QuoteState.fair_outside]
  simp only [List.filter_map, List.map_map, Function.comp_def, trim_squeeze, isEmpty_squeeze]

end CodeIndex.Sql
