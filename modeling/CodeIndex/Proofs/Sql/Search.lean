import CodeIndex.Proofs.Sql.Cuts
import CodeIndex.Proofs.Sql.SpacingTable
import CodeIndex.Proofs.Text.LetterCase

/-!
# Where a search stops

A search stops at the first place at a word boundary where its piece is there, and what it finds
there is a clause of the text.  The comment of a column is found this way and taken out before the
other clauses are looked for.

* `search_eq_some_iff`, `occurs_iff` : what a search finds, as a place in the text.
* `anyKeyword_eq_some_iff` : words that exclude each other.
* `singleQuoted_eq_some_iff`, `doubleQuoted_eq_some_iff` : what the text of a literal is.
* `commentAt_of_search` : the comment that is taken out of a column.
-/

namespace CodeIndex.Sql

open Text

variable {α : Type} {piece : List Char → Option α}

/-! ## Places -/

/-- The last character of a text, with the one in front for an empty text. -/
theorem getLast?_cons_or (c : Char) (cs : List Char) (before : Option Char) :
    (c :: cs).getLast?.or before = cs.getLast?.or (some c) := by
  cases cs with
  | nil => rfl
  | cons d cs => simp [List.getLast?_cons]

/-- What holds of some cut of a text can be decided by trying all cuts. -/
theorem exists_cut_iff {P : List Char → List Char → Prop} {cs : List Char} :
    (∃ n ∈ List.range (cs.length + 1), P (cs.take n) (cs.drop n)) ↔ ∃ a b, cs = a ++ b ∧ P a b := by
  constructor
  · rintro ⟨n, -, h⟩
    exact ⟨_, _, (List.take_append_drop n cs).symm, h⟩
  · rintro ⟨a, b, rfl, h⟩
    have hmem : a.length ∈ List.range ((a ++ b).length + 1) := by
      rw [List.mem_range, List.length_append]
      omega
    exact ⟨a.length, hmem, by simpa using h⟩

/-- All cuts of a text are those at its lengths. -/
theorem forall_cut_iff {P : List Char → List Char → Prop} {cs : List Char} :
    (∀ n ∈ List.range (cs.length + 1), P (cs.take n) (cs.drop n)) ↔
      ∀ a b, cs = a ++ b → P a b := by
  constructor
  · rintro h a b rfl
    have hmem : a.length ∈ List.range ((a ++ b).length + 1) := by
      rw [List.mem_range, List.length_append]
      omega
    simpa using h a.length hmem
  · exact fun h n _ => h _ _ (List.take_append_drop n cs).symm

/-- A text of word characters ends in no boundary. -/
theorem isBoundary_getLast?_of_isWordChar {w : List Char} (hne : w ≠ [])
    (h : ∀ c ∈ w, isWordChar c = true) : isBoundary w.getLast? = false := by
  rw [List.getLast?_eq_some_getLast hne]
  simp [isBoundary, h _ (List.getLast_mem hne)]

/-- A search finds the piece at the first place at a word boundary where it is there. -/
theorem search_eq_some_iff {before : Option Char} {cs front : List Char} {found : α} :
    search piece before cs = some (front, found) ↔ ∃ behind, behind ≠ [] ∧ cs = front ++ behind ∧
      isBoundary (front.getLast?.or before) = true ∧ piece behind = some found ∧
      ∀ u w, cs = u ++ w → u.length < front.length →
        isBoundary (u.getLast?.or before) = true → piece w = none := by
  induction cs generalizing before front with
  | nil =>
      constructor
      · intro h
        cases h
      · rintro ⟨behind, hne, hsplit, -⟩
        exact absurd (List.append_eq_nil_iff.mp hsplit.symm).2 hne
  | cons c cs ih =>
      by_cases hhere : isBoundary before = true → piece (c :: cs) = none
      · rw [search_cons hhere, Option.map_eq_some_iff]
        constructor
        · rintro ⟨⟨skipped, a⟩, hsearch, heq⟩
          obtain ⟨rfl, rfl⟩ := Prod.mk.inj heq
          obtain ⟨behind, hne, rfl, hboundary, hfound, hfirst⟩ := ih.mp hsearch
          refine ⟨behind, hne, rfl, ?_, hfound, ?_⟩
          · rwa [List.singleton_append, getLast?_cons_or]
          · intro u w hsplit hlength hu
            cases u with
            | nil =>
                have hw : w = c :: (skipped ++ behind) := hsplit.symm
                rw [hw]
                exact hhere hu
            | cons d u =>
                obtain ⟨rfl, hrest⟩ := List.cons.inj hsplit
                rw [getLast?_cons_or] at hu
                exact hfirst u w hrest (by simpa using hlength) hu
        · rintro ⟨behind, hne, hsplit, hboundary, hfound, hfirst⟩
          cases front with
          | nil =>
              rw [List.nil_append] at hsplit
              rw [← hsplit, hhere hboundary] at hfound
              cases hfound
          | cons d front =>
              obtain ⟨rfl, hrest⟩ := List.cons.inj hsplit
              refine ⟨(front, found), ih.mpr ⟨behind, hne, hrest, ?_, hfound, ?_⟩, rfl⟩
              · rwa [getLast?_cons_or] at hboundary
              · intro u w hsplit hlength hu
                rw [← getLast?_cons_or c u before] at hu
                exact hfirst (c :: u) w (by rw [hsplit]; rfl) (by simpa using hlength) hu
      · simp only [Classical.not_imp] at hhere
        obtain ⟨hbefore, hpiece⟩ := hhere
        obtain ⟨a, ha⟩ := Option.ne_none_iff_exists'.mp hpiece
        rw [search_of_some hbefore ha]
        constructor
        · intro h
          obtain ⟨rfl, rfl⟩ := Prod.mk.inj (Option.some.inj h)
          exact ⟨c :: cs, by simp, rfl, hbefore, ha, by simp⟩
        · rintro ⟨behind, hne, hsplit, -, hfound, hfirst⟩
          cases front with
          | nil =>
              rw [List.nil_append] at hsplit
              rw [← hsplit, ha] at hfound
              rw [Option.some.inj hfound]
          | cons d front => exact absurd (hfirst [] (c :: cs) rfl (by simp) hbefore) hpiece

/-- A piece occurs in a text when it is there at some place at a word boundary. -/
theorem occurs_iff (hnil : piece [] = none) {cs : List Char} : occurs piece cs = true ↔
    ∃ a b, cs = a ++ b ∧ isBoundary a.getLast? = true ∧ (piece b).isSome = true := by
  have hsearch : ∀ before, (search piece before cs).isSome = true ↔
      ∃ a b, cs = a ++ b ∧ isBoundary (a.getLast?.or before) = true ∧ (piece b).isSome = true := by
    induction cs with
    | nil =>
        intro before
        constructor
        · intro h
          cases h
        · rintro ⟨a, b, hsplit, -, hb⟩
          rw [(List.append_eq_nil_iff.mp hsplit.symm).2, hnil] at hb
          cases hb
    | cons c cs ih =>
        intro before
        by_cases hhere : isBoundary before = true → piece (c :: cs) = none
        · rw [search_cons hhere, Option.isSome_map, ih]
          constructor
          · rintro ⟨a, b, rfl, ha, hb⟩
            exact ⟨c :: a, b, rfl, by rwa [getLast?_cons_or], hb⟩
          · rintro ⟨a, b, hsplit, ha, hb⟩
            cases a with
            | nil =>
                rw [List.nil_append] at hsplit
                rw [← hsplit, hhere ha] at hb
                cases hb
            | cons d a =>
                obtain ⟨rfl, hrest⟩ := List.cons.inj hsplit
                exact ⟨a, b, hrest, by rwa [getLast?_cons_or] at ha, hb⟩
        · simp only [Classical.not_imp] at hhere
          obtain ⟨hbefore, hpiece⟩ := hhere
          obtain ⟨a, ha⟩ := Option.ne_none_iff_exists'.mp hpiece
          rw [search_of_some hbefore ha]
          exact iff_of_true rfl ⟨[], c :: cs, rfl, hbefore, by rw [ha]; rfl⟩
  have hnone : ∀ o : Option Char, o.or none = o := fun _ => Option.or_none
  simpa only [occurs, hnone] using hsearch none

/-! ## Keywords in front of a clause -/

/-- A spelling of the keyword with blanks behind it. -/
def IsLead (word : String) (lead : List Char) : Prop :=
  ∃ letters gap, Spells word.toList letters ∧ gap ≠ [] ∧ (∀ c ∈ gap, isBlank c = true) ∧
    lead = letters ++ gap

/-- A keyword is read where it is spelled. -/
theorem keyword_eq_some_iff {word : String} {cs rest : List Char} :
    keyword word cs = some rest ↔ ∃ text, Spells word.toList text ∧ cs = text ++ rest :=
  afterLetters_eq_some_iff

/-- Blanks are read up to the first other character. -/
theorem blanks_eq_some_iff {cs rest : List Char} : blanks cs = some rest ↔
    ∃ gap, gap ≠ [] ∧ (∀ c ∈ gap, isBlank c = true) ∧ cs = gap ++ rest ∧ Flush rest := by
  constructor
  · intro h
    cases cs with
    | nil => cases h
    | cons c cs =>
        rw [blanks] at h
        split at h
        · rename_i hc
          rw [← Option.some.inj h]
          refine ⟨c :: cs.takeWhile isBlank, by simp, ?_, ?_, flush_trimStart cs⟩
          · intro d hd
            rcases List.mem_cons.mp hd with rfl | hd
            · exact hc
            · exact List.mem_takeWhile_imp hd
          · rw [trimStart, List.cons_append, List.takeWhile_append_dropWhile]
        · cases h
  · rintro ⟨gap, hne, hgap, rfl, hrest⟩
    rw [blanks_append hne hgap, hrest.trimStart_eq]

/-- A keyword and blanks are read up to a character that is no blank. -/
theorem keyword_blanks_eq_some_iff {word : String} {cs rest : List Char} :
    (keyword word cs).bind blanks = some rest ↔
      ∃ lead, IsLead word lead ∧ cs = lead ++ rest ∧ Flush rest := by
  rw [Option.bind_eq_some_iff]
  constructor
  · rintro ⟨mid, hmid, hrest⟩
    obtain ⟨letters, hletters, rfl⟩ := keyword_eq_some_iff.mp hmid
    obtain ⟨gap, hne, hgap, rfl, hflush⟩ := blanks_eq_some_iff.mp hrest
    exact ⟨letters ++ gap, ⟨letters, gap, hletters, hne, hgap, rfl⟩, by simp, hflush⟩
  · rintro ⟨lead, ⟨letters, gap, hletters, hne, hgap, rfl⟩, rfl, hflush⟩
    refine ⟨gap ++ rest, keyword_eq_some_iff.mpr ⟨letters, hletters, by simp⟩, ?_⟩
    exact blanks_eq_some_iff.mpr ⟨gap, hne, hgap, rfl, hflush⟩

/-- A spelled keyword is read. -/
theorem keyword_spelled {word : String} {text : List Char} (h : Spells word.toList text)
    (rest : List Char) : keyword word (text ++ rest) = some rest :=
  keyword_eq_some_iff.mpr ⟨text, h, rfl⟩

/-- A spelling of a keyword starts with no blank. -/
theorem flush_spelled {word : String} (hword : IsKeyword word) (hne : word.toList ≠ [])
    {text : List Char} (h : Spells word.toList text) (rest : List Char) : Flush (text ++ rest) := by
  have hflush := flush_trimStart (text ++ rest)
  rwa [trimStart_spelling hword hne h] at hflush

/-- The keyword of a comment starts with its letter. -/
theorem IsLead.exists_cons {lead : List Char} (h : IsLead "COMMENT" lead) :
    ∃ c more, lead = c :: more ∧ foldsTo 'C' c = true := by
  obtain ⟨letters, gap, hletters, -, -, rfl⟩ := h
  have hspells : Spells ('C' :: "OMMENT".toList) letters := hletters
  obtain ⟨c, more, hfold, -, rfl⟩ := List.forall₂_cons_left_iff.mp hspells
  exact ⟨c, more ++ gap, rfl, hfold⟩

/-! ## Keywords that exclude each other -/

/-- The capital that a character spells. -/
def spelledCapital (c : Char) : Char :=
  if c.toNat = 0x212a then 'K' else if c.toNat = 0x17f then 'S' else c.toUpper

/-- A character stands for one capital letter at most. -/
theorem eq_spelledCapital {letter c : Char} (hletter : letter ∈ capitals)
    (h : foldsTo letter c = true) : letter = spelledCapital c := by
  have hcapital : ∀ n ∈ [0x212a, 0x17f], (Char.ofNat n).toUpper ∉ capitals := by decide
  have hnot : ∀ n ∈ [0x212a, 0x17f], c.toUpper = letter → c.toNat ≠ n := by
    intro n hn hupper hcode
    apply hcapital n hn
    rwa [← hcode, Char.ofNat_toNat, hupper]
  simp only [foldsTo, Bool.or_eq_true, Bool.and_eq_true, beq_iff_eq] at h
  rcases h with (hupper | ⟨rfl, hcode⟩) | ⟨rfl, hcode⟩
  · rw [spelledCapital, if_neg (hnot _ (by decide) hupper), if_neg (hnot _ (by decide) hupper),
      hupper]
  · rw [spelledCapital, if_pos hcode]
  · rw [spelledCapital, if_neg (by omega), if_pos hcode]

/-- A character spells one capital at most. -/
theorem foldsTo_disjoint {letter other c : Char} (hletter : letter ∈ capitals)
    (hother : other ∈ capitals) (hne : letter ≠ other) (h : foldsTo letter c = true) :
    foldsTo other c = false := by
  by_contra hfold
  rw [Bool.not_eq_false] at hfold
  exact hne ((eq_spelledCapital hletter h).trans (eq_spelledCapital hother hfold).symm)

/-- The two words differ in a letter. -/
def Apart (word other : String) : Prop :=
  (∀ letter ∈ word.toList, letter ∈ capitals) ∧ (∀ letter ∈ other.toList, letter ∈ capitals) ∧
    ∃ p ∈ word.toList.zip other.toList, p.1 ≠ p.2

instance (word other : String) : Decidable (Apart word other) :=
  inferInstanceAs (Decidable (_ ∧ _ ∧ _))

/-- Letters that differ at a place are not both read. -/
theorem afterLetters_eq_none {letters others cs rest : List Char}
    (hletters : ∀ letter ∈ letters, letter ∈ capitals)
    (hothers : ∀ letter ∈ others, letter ∈ capitals)
    (happart : ∃ p ∈ letters.zip others, p.1 ≠ p.2) (hread : afterLetters others cs = some rest) :
    afterLetters letters cs = none := by
  induction letters generalizing others cs with
  | nil =>
      obtain ⟨p, hp, -⟩ := happart
      cases hp
  | cons letter letters ih =>
      cases others with
      | nil =>
          obtain ⟨p, hp, -⟩ := happart
          cases hp
      | cons other others =>
          cases cs with
          | nil => rfl
          | cons c cs =>
              rw [afterLetters] at hread ⊢
              split at hread
              · rename_i hc
                split
                · rename_i hfold
                  obtain ⟨p, hp, hne⟩ := happart
                  rcases List.mem_cons.mp hp with rfl | hp
                  · have hnot := foldsTo_disjoint (hletters _ List.mem_cons_self)
                      (hothers _ List.mem_cons_self) hne hfold
                    rw [hc] at hnot
                    cases hnot
                  · exact ih (fun l hl => hletters l (List.mem_cons_of_mem _ hl))
                      (fun l hl => hothers l (List.mem_cons_of_mem _ hl)) ⟨p, hp, hne⟩ hread
                · rfl
              · cases hread

/-- Of two words that are apart one is read at most. -/
theorem Apart.keyword_eq_none {word other : String} (h : Apart word other) {cs rest : List Char}
    (hread : keyword other cs = some rest) : keyword word cs = none :=
  afterLetters_eq_none h.1 h.2.1 h.2.2 hread

/-- Of words that exclude each other any may be read. -/
theorem anyKeyword_eq_some_iff {words : List String} (h : words.Pairwise Apart)
    {cs rest : List Char} :
    anyKeyword words cs = some rest ↔ ∃ word ∈ words, keyword word cs = some rest := by
  induction words with
  | nil => simp [anyKeyword]
  | cons word more ih =>
      have hmore := ih (List.pairwise_cons.mp h).2
      rw [anyKeyword, List.findSome?_cons]
      constructor
      · intro hread
        split at hread
        · rename_i left hleft
          exact ⟨word, List.mem_cons_self, hleft.trans hread⟩
        · obtain ⟨other, hother, hrest⟩ := hmore.mp hread
          exact ⟨other, List.mem_cons_of_mem _ hother, hrest⟩
      · intro hread
        obtain ⟨other, hother, hrest⟩ := hread
        rcases List.mem_cons.mp hother with rfl | hother
        · rw [hrest]
        · rw [((List.pairwise_cons.mp h).1 other hother).keyword_eq_none hrest]
          exact hmore.mpr ⟨other, hother, hrest⟩

/-! ## Literals -/

/-- A quote behind the closing one, if the text cannot be closed behind it. -/
def Closes (behind : List Char) : Prop := ∀ more, behind = '\'' :: more → singleQuoted more = none

/-- A quote with no quote behind it closes. -/
theorem closes_of_head? {behind : List Char} (h : behind.head? ≠ some '\'') : Closes behind := by
  rintro more rfl
  exact absurd rfl h

/-- The text of a single-quoted literal is escaped, with quotes doubled as long as the literal can
be closed behind them. -/
theorem singleQuoted_eq_some_iff {cs body behind : List Char} :
    singleQuoted cs = some (body, behind) ↔
      cs = body ++ '\'' :: behind ∧ Escaped '\'' body ∧ Closes behind := by
  constructor
  · intro h
    refine ⟨singleQuoted_split cs _ h, ?_⟩
    induction cs using singleQuoted.induct generalizing body with
    | case1 => cases h
    | case2 c rest ih =>
        rw [singleQuoted, Option.map_eq_some_iff] at h
        obtain ⟨⟨content, after⟩, hfound, heq⟩ := h
        obtain ⟨rfl, rfl⟩ := Prod.mk.inj heq
        exact ⟨(ih hfound).1.slash, (ih hfound).2⟩
    | case3 => cases h
    | case4 rest content after hrest ih =>
        simp only [singleQuoted, hrest, Option.some.injEq, Prod.mk.injEq] at h
        obtain ⟨rfl, rfl⟩ := h
        exact ⟨(ih hrest).1.doubled, (ih hrest).2⟩
    | case5 rest hrest ih =>
        simp only [singleQuoted, hrest, Option.some.injEq, Prod.mk.injEq] at h
        obtain ⟨rfl, rfl⟩ := h
        refine ⟨.nil, ?_⟩
        intro more hmore
        rw [← (List.cons.inj hmore).2]
        exact hrest
    | case6 rest hne =>
        rw [singleQuoted.eq_5 _ hne, Option.some.injEq, Prod.mk.injEq] at h
        obtain ⟨rfl, rfl⟩ := h
        exact ⟨.nil, fun more hmore => absurd hmore (hne more)⟩
    | case7 c rest h₁ h₂ h₃ h₄ ih =>
        rw [singleQuoted.eq_6 _ _ h₁ h₂ h₃ h₄, Option.map_eq_some_iff] at h
        obtain ⟨⟨content, after⟩, hfound, heq⟩ := h
        obtain ⟨rfl, rfl⟩ := Prod.mk.inj heq
        have hslash : c ≠ '\\' := by
          rintro rfl
          cases rest with
          | nil => exact h₂ rfl rfl
          | cons d rest => exact h₁ d rest rfl rfl
        exact ⟨(ih hfound).1.plain h₄ hslash, (ih hfound).2⟩
  · rintro ⟨rfl, hbody, hclose⟩
    induction hbody with
    | nil =>
        by_cases hhead : behind.head? = some '\''
        · obtain ⟨more, rfl⟩ : ∃ more, behind = '\'' :: more := by
            cases behind with
            | nil => cases hhead
            | cons c more => exact ⟨more, by rw [Option.some.inj hhead]⟩
          rw [List.nil_append, singleQuoted, hclose more rfl]
        · exact singleQuoted_close hhead
    | @plain c body hquote hslash _ ih =>
        rw [List.cons_append, readsContent_singleQuoted.plain c _ hslash hquote, ih]
        rfl
    | @slash c body _ ih =>
        rw [List.cons_append, List.cons_append, singleQuoted, ih]
        rfl
    | @doubled body _ ih => rw [List.cons_append, List.cons_append, singleQuoted, ih]

/-- A text in which each quote `q` is escaped by a backslash. -/
inductive Enclosed (q : Char) : List Char → Prop
  | nil : Enclosed q []
  | plain {c : Char} {body : List Char} (hquote : c ≠ q) (hslash : c ≠ '\\')
      (h : Enclosed q body) : Enclosed q (c :: body)
  | slash {c : Char} {body : List Char} (h : Enclosed q body) : Enclosed q ('\\' :: c :: body)

/-- The text of a double-quoted literal runs to the first quote that is not escaped. -/
theorem doubleQuoted_eq_some_iff {cs body behind : List Char} :
    doubleQuoted cs = some (body, behind) ↔
      cs = body ++ '"' :: behind ∧ Enclosed '"' body := by
  constructor
  · intro h
    refine ⟨doubleQuoted_split cs _ h, ?_⟩
    induction cs using doubleQuoted.induct generalizing body with
    | case1 => cases h
    | case2 c rest ih =>
        rw [doubleQuoted, Option.map_eq_some_iff] at h
        obtain ⟨⟨content, after⟩, hfound, heq⟩ := h
        obtain ⟨rfl, rfl⟩ := Prod.mk.inj heq
        exact (ih hfound).slash
    | case3 => cases h
    | case4 rest =>
        rw [doubleQuoted, Option.some.injEq, Prod.mk.injEq] at h
        rw [← h.1]
        exact .nil
    | case5 c rest h₁ h₂ h₃ ih =>
        rw [doubleQuoted.eq_5 _ _ h₁ h₂ h₃, Option.map_eq_some_iff] at h
        obtain ⟨⟨content, after⟩, hfound, heq⟩ := h
        obtain ⟨rfl, rfl⟩ := Prod.mk.inj heq
        have hslash : c ≠ '\\' := by
          rintro rfl
          cases rest with
          | nil => exact h₂ rfl rfl
          | cons d rest => exact h₁ d rest rfl rfl
        exact (ih hfound).plain h₃ hslash
  · rintro ⟨rfl, hbody⟩
    induction hbody with
    | nil => rfl
    | @plain c body hquote hslash _ ih =>
        rw [List.cons_append, readsContent_doubleQuoted.plain c _ hslash hquote, ih]
        rfl
    | @slash c body _ ih =>
        rw [List.cons_append, List.cons_append, doubleQuoted, ih]
        rfl

/-! ## The head and the comment of a column -/

/-- A column that is read has a head. -/
theorem columnHead_of_parseColumn {part : List Char} {column : Column}
    (h : parseColumn part = some column) :
    ∃ head, columnHead part = some head ∧ column = columnOf head := by
  rw [parseColumn_eq] at h
  obtain ⟨leader, -, h⟩ := Option.bind_eq_some_iff.mp h
  split at h
  · cases h
  · obtain ⟨head, hhead, rfl⟩ := Option.map_eq_some_iff.mp h
    exact ⟨head, hhead, rfl⟩

/-- A comment of a column is its keyword, blanks and a literal. -/
theorem columnComment_eq_some_iff {cs body behind : List Char} :
    columnComment cs = some (body, behind) ↔ ∃ lead, IsLead "COMMENT" lead ∧
      cs = lead ++ '\'' :: (body ++ '\'' :: behind) ∧ Escaped '\'' body ∧ Closes behind := by
  have hread : columnComment cs
      = ((keyword "COMMENT" cs).bind blanks).bind fun rest =>
          (symbol '\'' rest).bind singleQuoted := by
    rw [columnComment]
    simp only [Option.bind_eq_bind, Option.bind_assoc]
  rw [hread, Option.bind_eq_some_iff]
  constructor
  · rintro ⟨rest, hlead, hliteral⟩
    obtain ⟨lead, hkey, rfl, -⟩ := keyword_blanks_eq_some_iff.mp hlead
    cases rest with
    | nil => cases hliteral
    | cons c rest =>
        by_cases hc : c = '\''
        · rw [symbol, if_pos hc, Option.bind_some] at hliteral
          obtain ⟨rfl, hbody, hclose⟩ := singleQuoted_eq_some_iff.mp hliteral
          exact ⟨lead, hkey, by rw [hc], hbody, hclose⟩
        · rw [symbol, if_neg hc] at hliteral
          cases hliteral
  · rintro ⟨lead, hkey, rfl, hbody, hclose⟩
    refine ⟨'\'' :: (body ++ '\'' :: behind),
      keyword_blanks_eq_some_iff.mpr ⟨lead, hkey, rfl, flush_cons.mpr (by decide)⟩, ?_⟩
    exact singleQuoted_eq_some_iff.mpr ⟨rfl, hbody, hclose⟩

/-- The first comment of a text: what stands in front of it, its keyword with the blanks behind,
its text, and what stands behind it. -/
structure CommentAt (rest front lead body behind : List Char) : Prop where
  keyword : IsLead "COMMENT" lead
  split : rest = front ++ (lead ++ '\'' :: (body ++ '\'' :: behind))
  boundary : isBoundary front.getLast? = true
  escaped : Escaped '\'' body
  closes : Closes behind

/-- **The comment that is taken out** of a column, and what is left. -/
theorem commentAt_of_search {rest front body behind : List Char}
    (h : search columnComment none rest = some (front, body, behind)) :
    attributes rest = front ++ behind ∧ ∃ lead, CommentAt rest front lead body behind := by
  obtain ⟨clause, -, hsplit, hboundary, hfound, -⟩ := search_eq_some_iff.mp h
  obtain ⟨lead, hlead, rfl, hbody, hclose⟩ := columnComment_eq_some_iff.mp hfound
  rw [Option.or_none] at hboundary
  exact ⟨by rw [attributes, h], lead, ⟨hlead, hsplit, hboundary, hbody, hclose⟩⟩

/-- Without a comment nothing is taken out. -/
theorem attributes_eq_self {rest : List Char} (h : search columnComment none rest = none) :
    attributes rest = rest := by
  rw [attributes, h]

end CodeIndex.Sql
