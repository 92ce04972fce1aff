import CodeIndex.Proofs.Sql.Search

/-!
# Literals and the flags of a column

The flags of a column are words that are looked for in the text behind its type, without regard to
quotes, once its comment is taken out.  So they are decided by the words outside quotes and by those
in the literals that are left, such as a default.

There are two ingredients.

1.  A word outside quotes stands clear of the comment.  Taking the comment out moves nothing else
    outside, so the words that stand outside are the same before and after, unless the comment
    stands between two of them.
2.  A word holds no quote.  What stands outside quotes is therefore found without a look at the
    texts between them, and does not depend on these.

* `stands_attributes` : the words that stand outside when the comment is taken out.
* `stands_fill` : they do not depend on the texts of literals.
* `parseColumn_flags` : what decides the flags of a column.
* `parseColumn_flags_buried` : literals that decide them.
-/

namespace CodeIndex.Sql

open Text Position

/-! ## Outside quotes -/

/-- The text ends outside quotes. -/
def Outside (cs : List Char) : Prop := ∃ depth, Level depth cs

/-- A text ends outside quotes if the scan does. -/
theorem outside_iff {cs : List Char} : Outside cs ↔ (start.run cs).quotes = .outside := by
  constructor
  · rintro ⟨depth, h⟩
    rw [level_iff.mp h]
  · intro h
    refine ⟨(start.run cs).depth, level_iff.mpr ?_⟩
    rw [← h]

instance (cs : List Char) : Decidable (Outside cs) := decidable_of_iff _ outside_iff.symm

/-- A word character is no quote and no parenthesis. -/
theorem plain_of_isWordChar {c : Char} (hc : isWordChar c = true) :
    isQuote c = false ∧ c ≠ '(' ∧ c ≠ ')' :=
  plain_of_class (by decide) hc

/-- A quote is no word character. -/
theorem not_isWordChar_of_isQuote {q : Char} (hq : isQuote q = true) : isWordChar q = false := by
  by_contra hword
  rw [(plain_of_isWordChar (by simpa using hword)).1] at hq
  cases hq

/-- Inside a literal the scan is outside only between two doubled quotes. -/
theorem head?_of_run_inside {q : Char} (hq : isQuote q = true) {u v : List Char}
    (h : Escaped q (u ++ v)) {depth : Nat}
    (hrun : ((⟨.inside q, depth⟩ : Position).run u).quotes = .outside) :
    (v ++ [q]).head? = some q := by
  generalize hbody : u ++ v = body at h
  induction h generalizing u with
  | nil =>
      rw [(List.append_eq_nil_iff.mp hbody).2]
      rfl
  | @plain c body hquote hslash _ ih =>
      cases u with
      | nil => cases congrArg QuoteState.quote hrun
      | cons d u =>
          obtain ⟨rfl, htail⟩ := List.cons.inj hbody
          rw [run_cons, step_inside_plain hquote hslash] at hrun
          exact ih hrun htail
  | @slash c body _ ih =>
      rcases u with _ | ⟨d, _ | ⟨e, u⟩⟩
      · cases congrArg QuoteState.quote hrun
      · obtain ⟨rfl, -⟩ := List.cons.inj hbody
        cases congrArg QuoteState.quote hrun
      · simp only [List.cons_append, List.cons.injEq] at hbody
        obtain ⟨rfl, -, htail⟩ := hbody
        have hrest : ((⟨.inside q, depth⟩ : Position).run u).quotes = .outside := hrun
        exact ih hrest htail
  | @doubled body _ ih =>
      rcases u with _ | ⟨d, _ | ⟨e, u⟩⟩
      · cases congrArg QuoteState.quote hrun
      · obtain ⟨-, htail⟩ := List.cons.inj hbody
        rw [show v = q :: body from htail]
        rfl
      · simp only [List.cons_append, List.cons.injEq] at hbody
        obtain ⟨rfl, rfl, htail⟩ := hbody
        rw [run_cons, step_inside_quote hq, run_cons, step_quote hq] at hrun
        exact ih hrun htail

/-! ## Words that are looked for -/

/-- `NOT NULL`, with any blanks between the words. -/
def IsNotNull (w : List Char) : Prop :=
  ∃ lead text, IsLead "NOT" lead ∧ Spells "NULL".toList text ∧ w = lead ++ text

/-- `AUTO_INCREMENT`. -/
def IsAutoIncrement (w : List Char) : Prop := Spells "AUTO_INCREMENT".toList w

/-- The text starts with words of a kind, up to the end of a word. -/
def Opens (W : List Char → Prop) (cs : List Char) : Prop :=
  ∃ w z, cs = w ++ z ∧ W w ∧ isBoundary z.head? = true

/-- The reader for `NOT NULL` succeeds where the words open the text. -/
theorem notNull_isSome_iff {cs : List Char} : (notNull cs).isSome = true ↔ Opens IsNotNull cs := by
  have hread : notNull cs = ((keyword "NOT" cs).bind blanks).bind fun rest =>
      (keyword "NULL" rest).bind fun rest => if isBoundary rest.head? then some () else none := by
    rw [notNull]
    simp only [Option.bind_eq_bind, Option.bind_assoc]
  rw [hread, Option.isSome_iff_exists]
  constructor
  · rintro ⟨found, hfound⟩
    obtain ⟨rest, hlead, hrest⟩ := Option.bind_eq_some_iff.mp hfound
    obtain ⟨lead, hkey, rfl, -⟩ := keyword_blanks_eq_some_iff.mp hlead
    obtain ⟨z, hnull, hend⟩ := Option.bind_eq_some_iff.mp hrest
    obtain ⟨text, htext, rfl⟩ := keyword_eq_some_iff.mp hnull
    exact ⟨lead ++ text, z, by simp, ⟨lead, text, hkey, htext, rfl⟩,
      (Option.ite_none_right_eq_some.mp hend).1⟩
  · rintro ⟨w, z, rfl, ⟨lead, text, hlead, htext, rfl⟩, hz⟩
    have hkey := keyword_blanks_eq_some_iff.mpr
      ⟨lead, hlead, rfl, flush_spelled (by decide) (by decide) htext z⟩
    refine ⟨(), Option.bind_eq_some_iff.mpr ⟨text ++ z, by simpa using hkey, ?_⟩⟩
    exact Option.bind_eq_some_iff.mpr ⟨z, keyword_spelled htext z, if_pos hz⟩

/-- The reader for `AUTO_INCREMENT` succeeds where the word opens the text. -/
theorem autoIncrement_isSome_iff {cs : List Char} :
    (autoIncrement cs).isSome = true ↔ Opens IsAutoIncrement cs := by
  rw [Option.isSome_iff_exists]
  constructor
  · rintro ⟨found, hfound⟩
    obtain ⟨z, hkey, hend⟩ := Option.bind_eq_some_iff.mp hfound
    obtain ⟨text, htext, rfl⟩ := keyword_eq_some_iff.mp hkey
    exact ⟨text, z, rfl, htext, (Option.ite_none_right_eq_some.mp hend).1⟩
  · rintro ⟨w, z, rfl, hw, hz⟩
    exact ⟨(), Option.bind_eq_some_iff.mpr ⟨z, keyword_spelled hw z, if_pos hz⟩⟩

instance (cs : List Char) : Decidable (Opens IsNotNull cs) := decidable_of_iff _ notNull_isSome_iff

instance (cs : List Char) : Decidable (Opens IsAutoIncrement cs) :=
  decidable_of_iff _ autoIncrement_isSome_iff

/-- Whole words of a kind stand in the text outside quotes. -/
def Stands (W : List Char → Prop) (cs : List Char) : Prop :=
  ∃ a b, cs = a ++ b ∧ Outside a ∧ isBoundary a.getLast? = true ∧ Opens W b

/-- Whole words of a kind stand in a literal of the text. -/
def Buried (W : List Char → Prop) (cs : List Char) : Prop :=
  ∃ a b, cs = a ++ b ∧ ¬ Outside a ∧ isBoundary a.getLast? = true ∧ Opens W b

instance (W : List Char → Prop) [DecidablePred (Opens W)] (cs : List Char) :
    Decidable (Stands W cs) := decidable_of_iff _ exists_cut_iff

instance (W : List Char → Prop) [DecidablePred (Opens W)] (cs : List Char) :
    Decidable (Buried W cs) := decidable_of_iff _ exists_cut_iff

/-- A search without regard to quotes finds words outside them and words in literals. -/
theorem occurs_iff_stands_or_buried {α : Type} {piece : List Char → Option α}
    {W : List Char → Prop} (hnil : piece [] = none)
    (hpiece : ∀ cs, (piece cs).isSome = true ↔ Opens W cs) (cs : List Char) :
    occurs piece cs = true ↔ Stands W cs ∨ Buried W cs := by
  rw [occurs_iff hnil]
  constructor
  · rintro ⟨a, b, hsplit, hboundary, hb⟩
    by_cases ha : Outside a
    · exact .inl ⟨a, b, hsplit, ha, hboundary, (hpiece b).mp hb⟩
    · exact .inr ⟨a, b, hsplit, ha, hboundary, (hpiece b).mp hb⟩
  · rintro (⟨a, b, hsplit, -, hboundary, hb⟩ | ⟨a, b, hsplit, -, hboundary, hb⟩)
    · exact ⟨a, b, hsplit, hboundary, (hpiece b).mpr hb⟩
    · exact ⟨a, b, hsplit, hboundary, (hpiece b).mpr hb⟩

/-- Words that are looked for next to a comment: they start and end with a word character, hold no
quote, and none of them starts as the keyword of a comment does. -/
structure Searched (W : List Char → Prop) : Prop where
  starts : ∀ {w}, W w → ∃ c more, w = c :: more ∧ isWordChar c = true
  ends : ∀ {w}, W w → isBoundary w.getLast? = false
  unquoted : ∀ {w}, W w → ∀ c ∈ w, isQuote c = false
  resumes : ∀ {u c more}, W (u ++ c :: more) → isBoundary u.getLast? = true → foldsTo 'C' c = false

/-- `AUTO_INCREMENT` is looked for. -/
theorem searched_autoIncrement : Searched IsAutoIncrement := by
  have hchars : ∀ {w}, IsAutoIncrement w → ∀ c ∈ w, isWordChar c = true := fun h =>
    h.isWordChar (by decide)
  have hcons : ∀ {w}, IsAutoIncrement w → ∃ c more, w = c :: more ∧ foldsTo 'A' c = true := by
    intro w h
    cases h with
    | cons hc _ => exact ⟨_, _, rfl, hc⟩
  refine ⟨?_, ?_, ?_, ?_⟩
  · intro w h
    obtain ⟨c, more, rfl, hc⟩ := hcons h
    exact ⟨c, more, rfl, isWordChar_of_foldsTo (by decide) hc⟩
  · intro w h
    obtain ⟨c, more, rfl, -⟩ := hcons h
    exact isBoundary_getLast?_of_isWordChar (by simp) (hchars h)
  · exact fun h c hc => (plain_of_isWordChar (hchars h c hc)).1
  · intro u c more h hu
    cases u with
    | nil =>
        obtain ⟨d, rest, heq, hd⟩ := hcons h
        obtain ⟨rfl, -⟩ := List.cons.inj heq
        exact foldsTo_disjoint (by decide) (by decide) (by decide) hd
    | cons d u =>
        have hword : ∀ e ∈ d :: u, isWordChar e = true := fun e he =>
          hchars h e (List.mem_append_left _ he)
        rw [isBoundary_getLast?_of_isWordChar (by simp) hword] at hu
        cases hu

/-- `NOT NULL` is looked for. -/
theorem searched_notNull : Searched IsNotNull := by
  have hmem : ∀ {w}, IsNotNull w → ∀ c ∈ w,
      isBlank c = true ∨ ∃ letter ∈ "NOTUL".toList, foldsTo letter c = true := by
    rintro w ⟨lead, text, ⟨letters, gap, hletters, -, hgap, rfl⟩, htext, rfl⟩ c hc
    rcases List.mem_append.mp hc with hc | hc
    · rcases List.mem_append.mp hc with hc | hc
      · obtain ⟨letter, hmem, hfold⟩ := hletters.exists_letter hc
        exact .inr ⟨letter, (by decide : "NOT".toList ⊆ "NOTUL".toList) hmem, hfold⟩
      · exact .inl (hgap c hc)
    · obtain ⟨letter, hmem, hfold⟩ := htext.exists_letter hc
      exact .inr ⟨letter, (by decide : "NULL".toList ⊆ "NOTUL".toList) hmem, hfold⟩
  refine ⟨?_, ?_, ?_, ?_⟩
  · rintro w ⟨lead, text, ⟨letters, gap, hletters, -, -, rfl⟩, -, rfl⟩
    cases hletters with
    | cons hc _ => exact ⟨_, _, rfl, isWordChar_of_foldsTo (by decide) hc⟩
  · rintro w ⟨lead, text, -, htext, rfl⟩
    have hne : text ≠ [] := by
      rintro rfl
      cases htext
    rw [List.getLast?_append_of_ne_nil _ hne]
    exact isBoundary_getLast?_of_isWordChar hne (htext.isWordChar (by decide))
  · intro w h c hc
    rcases hmem h c hc with hblank | ⟨letter, hletter, hfold⟩
    · exact (plain_of_isBlank hblank).1
    · have hupper : ∀ letter ∈ "NOTUL".toList, letter.isUpper = true ∨ letter = '_' := by decide
      exact (plain_of_isWordChar (isWordChar_of_foldsTo (hupper letter hletter) hfold)).1
  · intro u c more h _
    rcases hmem h c (by simp) with hblank | ⟨letter, hletter, hfold⟩
    · exact foldsTo_of_not_isWordChar (.inl (by decide)) (isWordChar_of_isBlank hblank)
    · have hother : ∀ letter ∈ "NOTUL".toList, letter ∈ capitals ∧ letter ≠ 'C' := by decide
      exact foldsTo_disjoint (hother letter hletter).1 (by decide) (hother letter hletter).2 hfold

/-! ## Places where words stand -/

/-- Whole words of a kind stand outside quotes in a text that is read from the place `p`, behind the
character `before`. -/
def StandsFrom (W : List Char → Prop) (p : Position) (before : Option Char)
    (cs : List Char) : Prop :=
  ∃ a b, cs = a ++ b ∧ (p.run a).quotes = .outside ∧ isBoundary (a.getLast?.or before) = true ∧
    Opens W b

variable {W : List Char → Prop} {p : Position} {before : Option Char}

/-- Words stand in a text if they do so read from the start. -/
theorem stands_iff {cs : List Char} : Stands W cs ↔ StandsFrom W start none cs := by
  simp only [Stands, StandsFrom, outside_iff, Option.or_none]

/-- Words stand at the first character or behind it. -/
theorem standsFrom_cons {c : Char} {cs : List Char} : StandsFrom W p before (c :: cs) ↔
    (p.quotes = .outside ∧ isBoundary before = true ∧ Opens W (c :: cs)) ∨
      StandsFrom W (p.step c) (some c) cs := by
  constructor
  · rintro ⟨a, b, hsplit, hrun, hboundary, hopens⟩
    cases a with
    | nil =>
        obtain rfl : c :: cs = b := hsplit
        exact .inl ⟨hrun, hboundary, hopens⟩
    | cons d a =>
        obtain ⟨rfl, hrest⟩ := List.cons.inj hsplit
        rw [getLast?_cons_or] at hboundary
        exact .inr ⟨a, b, hrest, hrun, hboundary, hopens⟩
  · rintro (⟨hrun, hboundary, hopens⟩ | ⟨a, b, rfl, hrun, hboundary, hopens⟩)
    · exact ⟨[], c :: cs, rfl, hrun, hboundary, hopens⟩
    · exact ⟨c :: a, b, rfl, hrun, by rwa [getLast?_cons_or], hopens⟩

/-- Words stand in a text put together of two either at a place in the first or at one in the
second. -/
theorem standsFrom_append {u v : List Char} : StandsFrom W p before (u ++ v) ↔
    (∃ a b, u = a ++ b ∧ b ≠ [] ∧ (p.run a).quotes = .outside ∧
      isBoundary (a.getLast?.or before) = true ∧ Opens W (b ++ v)) ∨
    StandsFrom W (p.run u) (u.getLast?.or before) v := by
  constructor
  · rintro ⟨a, b, hsplit, hrun, hboundary, hopens⟩
    rcases List.append_eq_append_iff.mp hsplit with ⟨c, rfl, rfl⟩ | ⟨c, rfl, rfl⟩
    · refine .inr ⟨c, b, rfl, ?_, ?_, hopens⟩
      · rwa [run_append] at hrun
      · rwa [List.getLast?_append, Option.or_assoc] at hboundary
    · by_cases hc : c = []
      · subst hc
        rw [List.append_nil]
        exact .inr ⟨[], v, rfl, hrun, hboundary, hopens⟩
      · exact .inl ⟨a, c, rfl, hc, hrun, hboundary, hopens⟩
  · rintro (⟨a, b, rfl, -, hrun, hboundary, hopens⟩ | ⟨a, b, rfl, hrun, hboundary, hopens⟩)
    · exact ⟨a, b ++ v, by simp, hrun, hboundary, hopens⟩
    · refine ⟨u ++ a, b, by simp, ?_, ?_, hopens⟩
      · rwa [run_append]
      · rwa [List.getLast?_append, Option.or_assoc]

/-- Only the boundary in front matters. -/
theorem standsFrom_congr {before' : Option Char} (h : isBoundary before = isBoundary before')
    {cs : List Char} : StandsFrom W p before cs ↔ StandsFrom W p before' cs := by
  have hlast : ∀ a : List Char,
      isBoundary (a.getLast?.or before) = isBoundary (a.getLast?.or before') := by
    intro a
    cases a.getLast? with
    | none => exact h
    | some c => rfl
  simp only [StandsFrom, hlast]

/-- No words stand across a literal, and none inside that the scan takes for outside. -/
theorem standsFrom_literal (hW : Searched W) {q : Char} (hq : isQuote q = true)
    {body : List Char} (hbody : Escaped q body) {depth : Nat} {cs : List Char} :
    StandsFrom W ⟨.outside, depth⟩ before (q :: (body ++ q :: cs)) ↔
      StandsFrom W ⟨.outside, depth⟩ (some q) cs := by
  have hopens : ∀ {b : List Char}, b.head? = some q → ¬ Opens W b := by
    rintro b hhead ⟨w, z, rfl, hw, -⟩
    obtain ⟨c, more, rfl, hc⟩ := hW.starts hw
    rw [Option.some.inj hhead, not_isWordChar_of_isQuote hq] at hc
    cases hc
  have hrun := run_escaped hq hbody depth
  have hlast : (body ++ [q]).getLast?.or (some q) = some q := by simp
  rw [standsFrom_cons, step_quote hq, or_iff_right fun h => hopens rfl h.2.2,
    ← List.singleton_append, ← List.append_assoc, standsFrom_append, hrun, hlast]
  refine or_iff_right ?_
  rintro ⟨a, b, hsplit, hne, hquotes, -, hwords⟩
  refine hopens ?_ hwords
  rcases List.eq_nil_or_concat b with rfl | ⟨v, d, rfl⟩
  · exact absurd rfl hne
  · rw [List.concat_eq_append, ← List.append_assoc] at hsplit
    obtain ⟨rfl, hd⟩ := List.append_inj' hsplit rfl
    obtain ⟨rfl, -⟩ := List.cons.inj hd
    have hhead := head?_of_run_inside hq hbody hquotes
    rw [List.concat_eq_append, List.head?_append, hhead]
    rfl

/-! ## The comment -/

/-- The words stand in the text with its comment taken out, with the comment between them. -/
def Parted (W : List Char → Prop) (front behind : List Char) : Prop :=
  ∃ a u v z, front = a ++ u ∧ behind = v ++ z ∧ u ≠ [] ∧ v ≠ [] ∧
    isBoundary a.getLast? = true ∧ W (u ++ v) ∧ isBoundary z.head? = true

/-- No word that is looked for goes on with the keyword of a comment. -/
theorem Searched.not_across (hW : Searched W) {lead : List Char} (hlead : IsLead "COMMENT" lead)
    {b v z cs : List Char} (hsplit : lead ++ cs = v ++ z) (hv : v ≠ [])
    (hend : isBoundary b.getLast? = true) : ¬ W (b ++ v) := by
  intro hw
  obtain ⟨l, rest, rfl, hfold⟩ := hlead.exists_cons
  obtain ⟨c, v, rfl⟩ := List.exists_cons_of_ne_nil hv
  obtain ⟨rfl, -⟩ := List.cons.inj hsplit
  rw [hW.resumes hw hend] at hfold
  cases hfold

/-- A keyword and blanks are passed over by a search for other words. -/
theorem standsFrom_lead (hW : Searched W) {lead : List Char} (hlead : IsLead "COMMENT" lead)
    {q : Char} {depth : Nat} {cs : List Char} :
    StandsFrom W ⟨.outside, depth⟩ before (lead ++ q :: cs) ↔
      StandsFrom W ⟨.outside, depth⟩ (some ' ') (q :: cs) := by
  have hclash : ∀ {v z}, lead ++ q :: cs = v ++ z → v ≠ [] → ¬ W v := fun hsplit hv =>
    hW.not_across hlead hsplit hv (b := []) rfl
  obtain ⟨letters, gap, hletters, hne, hgap, rfl⟩ := hlead
  have hrun : (⟨.outside, depth⟩ : Position).run (letters ++ gap) = ⟨.outside, depth⟩ := by
    have hplain := fun c hc => plain_of_isWordChar (hletters.isWordChar (by decide) c hc)
    rw [run_append, run_plain hplain, run_blank hgap]
  have hlast : isBoundary ((letters ++ gap).getLast?.or before) = isBoundary (some ' ') := by
    have hblank := isWordChar_of_isBlank (hgap _ (List.getLast_mem hne))
    rw [List.getLast?_append_of_ne_nil _ hne, List.getLast?_eq_some_getLast hne, Option.some_or,
      isBoundary, hblank]
    rfl
  rw [standsFrom_append, hrun, standsFrom_congr hlast]
  refine or_iff_right ?_
  rintro ⟨a, b, hsplit, hb, -, hboundary, w, z, hwords, hw, -⟩
  obtain ⟨c, more, rfl, hc⟩ := hW.starts hw
  obtain ⟨b, rfl⟩ : ∃ rest, b = c :: rest := by
    cases b with
    | nil => exact absurd rfl hb
    | cons d b => exact ⟨b, by rw [(List.cons.inj hwords).1]⟩
  cases a with
  | nil =>
      rw [List.nil_append] at hsplit
      rw [← hsplit] at hwords
      exact hclash hwords (by simp) hw
  | cons d a =>
      rcases List.append_eq_append_iff.mp hsplit with ⟨x, ha, hgapSplit⟩ | ⟨x, hlettersSplit, -⟩
      · have hblank := hgap c (by rw [hgapSplit]; simp)
        rw [isWordChar_of_isBlank hblank] at hc
        cases hc
      · have hchars : ∀ e ∈ d :: a, isWordChar e = true := fun e he =>
          hletters.isWordChar (by decide) e (by rw [hlettersSplit]; exact List.mem_append_left _ he)
        have hend := isBoundary_getLast?_of_isWordChar (List.cons_ne_nil d a) hchars
        rw [List.getLast?_cons, Option.some_or, ← List.getLast?_cons, hend] at hboundary
        cases hboundary

/-- Words that stand outside quotes up to the front of a comment end in front of it, or they go on
behind it when it is taken out. -/
theorem Opens.within_or_across (hW : Searched W) {b behind : List Char} (hb : b ≠ [])
    (hend : isBoundary b.getLast? = true) (h : Opens W (b ++ behind)) :
    (∀ other, Opens W (b ++ other)) ∨
      ∃ v z, behind = v ++ z ∧ v ≠ [] ∧ W (b ++ v) ∧ isBoundary z.head? = true := by
  obtain ⟨w, z, hsplit, hw, hz⟩ := h
  rcases List.append_eq_append_iff.mp hsplit with ⟨v, rfl, rfl⟩ | ⟨x, rfl, rfl⟩
  · refine .inr ⟨v, z, rfl, ?_, hw, hz⟩
    rintro rfl
    have hlast := hW.ends hw
    rw [List.append_nil, hend] at hlast
    cases hlast
  · refine .inl fun other => ⟨w, x ++ other, by simp, hw, ?_⟩
    cases x with
    | nil =>
        have hlast := hW.ends hw
        rw [← List.append_nil w, hend] at hlast
        cases hlast
    | cons c x => exact hz

/-- **Taking a comment out leaves the words outside quotes** as they are, unless it brings two of
them together. -/
theorem stands_attributes (hW : Searched W) {rest front lead body behind : List Char}
    (h : CommentAt rest front lead body behind) (hout : Outside front) :
    Stands W (front ++ behind) ↔ Stands W rest ∨ Parted W front behind := by
  obtain ⟨hlead, rfl, hboundary, hbody, -⟩ := h
  obtain ⟨depth, hlevel⟩ := hout
  have hfront := level_iff.mp hlevel
  have hend : ∀ {a b : List Char}, front = a ++ b → b ≠ [] → isBoundary b.getLast? = true := by
    rintro a b rfl hb
    rwa [List.getLast?_append_of_ne_nil a hb] at hboundary
  have hbehind : StandsFrom W (start.run front) (front.getLast?.or none)
        (lead ++ '\'' :: (body ++ '\'' :: behind)) ↔
      StandsFrom W (start.run front) (front.getLast?.or none) behind := by
    have hquote : isBoundary (some '\'') = isBoundary front.getLast? := hboundary.symm
    rw [hfront, standsFrom_lead hW hlead, standsFrom_literal hW (by decide) hbody, Option.or_none,
      standsFrom_congr hquote]
  rw [stands_iff, stands_iff, standsFrom_append, standsFrom_append, hbehind]
  constructor
  · rintro (⟨a, b, hsplit, hb, hrun, ha, hopens⟩ | hlater)
    · rcases hopens.within_or_across hW hb (hend hsplit hb) with hwithin | ⟨v, z, rfl, hv, hw, hz⟩
      · exact .inl (.inl ⟨a, b, hsplit, hb, hrun, ha, hwithin _⟩)
      · exact .inr ⟨a, b, v, z, hsplit, rfl, hb, hv, by rwa [Option.or_none] at ha, hw, hz⟩
    · exact .inl (.inr hlater)
  · rintro ((⟨a, b, hsplit, hb, hrun, ha, hopens⟩ | hlater) |
      ⟨a, b, v, z, hsplit, rfl, hb, hv, ha, hw, hz⟩)
    · rcases hopens.within_or_across hW hb (hend hsplit hb) with hwithin | ⟨v, z, hcut, hv, hw, -⟩
      · exact .inl ⟨a, b, hsplit, hb, hrun, ha, hwithin _⟩
      · exact absurd hw (hW.not_across hlead hcut hv (hend hsplit hb))
    · exact .inr hlater
    · have hquotes : ((start.run a).run b).quotes = .outside := by
        rw [← run_append, ← hsplit, hfront]
      have hrun := (proper_start.run a).outside_of_run
        (fun c hc => hW.unquoted hw c (List.mem_append_left _ hc)) hquotes
      exact .inl ⟨a, b, hsplit, hb, hrun, by rwa [Option.or_none], b ++ v, z, by simp, hw, hz⟩

/-! ## Literals -/

variable {ι : Type}

/-- The literals are all there is in quotes, and their texts are well escaped. -/
def Item.Sound (f : ι → List Char) : Item ι → Prop
  | .char c => isQuote c = false
  | .literal q i => isQuote q = true ∧ Escaped q (f i)

instance (f : ι → List Char) : DecidablePred (Item.Sound f)
  | .char c => inferInstanceAs (Decidable (isQuote c = false))
  | .literal q i => inferInstanceAs (Decidable (isQuote q = true ∧ Escaped q (f i)))

/-- Words do not depend on what follows a quote. -/
theorem Opens.of_quote (hW : Searched W) {q : Char} (hq : isQuote q = true) {u v : List Char}
    (h : Opens W (u ++ q :: v)) (other : List Char) : Opens W (u ++ q :: other) := by
  obtain ⟨w, z, hsplit, hw, hz⟩ := h
  rcases List.append_eq_append_iff.mp hsplit with ⟨x, rfl, hx⟩ | ⟨x, rfl, rfl⟩
  · cases x with
    | nil =>
        rw [List.append_nil] at hw
        exact ⟨u, q :: other, rfl, hw, by simp [isBoundary, not_isWordChar_of_isQuote hq]⟩
    | cons d x =>
        obtain ⟨rfl, -⟩ := List.cons.inj hx
        rw [hW.unquoted hw q (by simp)] at hq
        cases hq
  · refine ⟨w, x ++ q :: other, by simp, hw, ?_⟩
    cases x with
    | nil => exact hz
    | cons d x => exact hz

/-- Words that open a text open it whatever its literals hold. -/
theorem Opens.of_fill (hW : Searched W) {f : ι → List Char} {items : List (Item ι)}
    (hf : ∀ item ∈ items, item.Sound f) (h : Opens W (fill f items)) (g : ι → List Char) :
    Opens W (fill g items) := by
  rw [fill_eq] at h ⊢
  rcases rear_cases items with hrear | ⟨q, i, rest, hrear⟩
  · rwa [hrear] at h ⊢
  · have hq : isQuote q = true := (hf (.literal q i) (rear_subset items (by rw [hrear]; simp))).1
    rw [hrear, fill_literal] at h ⊢
    exact h.of_quote hW hq _

/-- Words stand outside the literals whatever these hold. -/
theorem standsFrom_fill (hW : Searched W) {f g : ι → List Char} {items : List (Item ι)}
    (hf : ∀ item ∈ items, item.Sound f) (hg : ∀ item ∈ items, item.Sound g) (depth : Nat) :
    StandsFrom W ⟨.outside, depth⟩ before (fill f items) ↔
      StandsFrom W ⟨.outside, depth⟩ before (fill g items) := by
  induction items generalizing before depth with
  | nil => rfl
  | cons item rest ih =>
      have hfRest : ∀ item ∈ rest, item.Sound f := fun item h => hf item (List.mem_cons_of_mem _ h)
      have hgRest : ∀ item ∈ rest, item.Sound g := fun item h => hg item (List.mem_cons_of_mem _ h)
      cases item with
      | char c =>
          have hc : isQuote c = false := hf _ List.mem_cons_self
          obtain ⟨next, hstep⟩ : ∃ next, (⟨.outside, depth⟩ : Position).step c = ⟨.outside, next⟩ :=
            ⟨_, congrArg (Position.mk · _) (QuoteState.step_plain hc)⟩
          have hopens : Opens W (fill f (.char c :: rest)) ↔ Opens W (fill g (.char c :: rest)) :=
            ⟨fun h => h.of_fill hW hf g, fun h => h.of_fill hW hg f⟩
          rw [fill_char, fill_char] at hopens ⊢
          rw [standsFrom_cons, standsFrom_cons, hopens, hstep, ih hfRest hgRest]
      | literal q i =>
          obtain ⟨hq, hbody⟩ : isQuote q = true ∧ Escaped q (f i) := hf _ List.mem_cons_self
          have hother : Escaped q (g i) := (hg _ List.mem_cons_self).2
          rw [fill_literal, fill_literal, standsFrom_literal hW hq hbody,
            standsFrom_literal hW hq hother, ih hfRest hgRest]

/-- **The words outside quotes do not depend on the texts of literals.** -/
theorem stands_fill (hW : Searched W) {f g : ι → List Char} {items : List (Item ι)}
    (hf : ∀ item ∈ items, item.Sound f) (hg : ∀ item ∈ items, item.Sound g) :
    Stands W (fill f items) ↔ Stands W (fill g items) := by
  rw [stands_iff, stands_iff]
  exact standsFrom_fill hW hf hg 0

/-! ## Flags -/

/-- What decides whether words are found when the comment is taken out of a text, if it stands
outside quotes there. -/
theorem occurs_attributes_iff (hW : Searched W) {α : Type} {piece : List Char → Option α}
    (hnil : piece [] = none) (hpiece : ∀ cs, (piece cs).isSome = true ↔ Opens W cs)
    {rest : List Char} (hcomment : ∀ found ∈ search columnComment none rest, Outside found.1) :
    occurs piece (attributes rest) = true ↔ Stands W rest ∨ Buried W (attributes rest) ∨
      ∃ found ∈ search columnComment none rest, Parted W found.1 found.2.2 := by
  rw [occurs_iff_stands_or_buried hnil hpiece]
  cases hsearch : search columnComment none rest with
  | none => simp [attributes_eq_self hsearch]
  | some found =>
      obtain ⟨front, body, behind⟩ := found
      obtain ⟨hrest, lead, hat⟩ := commentAt_of_search hsearch
      have hstands := stands_attributes hW hat (hcomment _ hsearch)
      rw [hrest, hstands, or_assoc, or_comm (a := Parted W front behind)]
      simp

/-- A single word is not parted by a comment. -/
theorem not_parted_autoIncrement {rest front body behind : List Char}
    (h : search columnComment none rest = some (front, body, behind)) :
    ¬ Parted IsAutoIncrement front behind := by
  rintro ⟨a, u, v, z, rfl, -, hu, -, -, hw, -⟩
  obtain ⟨-, lead, hat⟩ := commentAt_of_search h
  have hword : ∀ c ∈ u, isWordChar c = true := fun c hc =>
    Spells.isWordChar (by decide) hw c (List.mem_append_left _ hc)
  have hboundary := hat.boundary
  rw [List.getLast?_append_of_ne_nil a hu, isBoundary_getLast?_of_isWordChar hu hword] at hboundary
  cases hboundary

/-- Literals do not come into how words are looked for: the comment that is taken out stands outside
quotes and not between the words, and these stand in no other literal. -/
structure Undisturbed (W : List Char → Prop) (rest : List Char) : Prop where
  outside : ∀ found ∈ search columnComment none rest, Outside found.1
  apart : ∀ found ∈ search columnComment none rest, ¬ Parted W found.1 found.2.2
  buried : ¬ Buried W (attributes rest)

/-- Words are found exactly where they stand outside quotes, if nothing disturbs. -/
theorem Undisturbed.occurs_iff_stands (hW : Searched W) {α : Type} {piece : List Char → Option α}
    (hnil : piece [] = none) (hpiece : ∀ cs, (piece cs).isSome = true ↔ Opens W cs)
    {rest : List Char} (h : Undisturbed W rest) :
    occurs piece (attributes rest) = true ↔ Stands W rest := by
  rw [occurs_attributes_iff hW hnil hpiece h.outside]
  refine or_iff_left ?_
  rintro (hburied | ⟨found, hfound, hparted⟩)
  · exact h.buried hburied
  · exact h.apart found hfound hparted

/-- **What decides the flags of a column.**  Where the comment that is taken out stands outside
quotes, a column is not nullable exactly when `NOT NULL` stands as whole words outside quotes behind
its type, or in a literal that is left, or with the comment between its words; and likewise for
`AUTO_INCREMENT`, which no comment can part.

So a column that differs behind its type only in the texts of literals has the same flags, unless a
literal comes into how the words are looked for. -/
theorem parseColumn_flags {part : List Char} {column : Column}
    (h : parseColumn part = some column) :
    ∃ name type rest, columnHead part = some (name, type, rest) ∧
    ((∀ found ∈ search columnComment none rest, Outside found.1) →
      (column.nullable = false ↔ Stands IsNotNull rest ∨ Buried IsNotNull (attributes rest) ∨
        ∃ found ∈ search columnComment none rest, Parted IsNotNull found.1 found.2.2) ∧
      (column.autoIncrement = true ↔
        Stands IsAutoIncrement rest ∨ Buried IsAutoIncrement (attributes rest))) ∧
    (∀ (ι : Type) (f g : ι → List Char) (items : List (Item ι)), rest = fill f items →
      (∀ item ∈ items, item.Sound f) → (∀ item ∈ items, item.Sound g) →
      (∀ W, W = IsNotNull ∨ W = IsAutoIncrement →
        Undisturbed W rest ∧ Undisturbed W (fill g items)) →
      ∀ part' column' name' type', parseColumn part' = some column' →
        columnHead part' = some (name', type', fill g items) →
        column.nullable = column'.nullable ∧ column.autoIncrement = column'.autoIncrement) := by
  have hnotNull : ∀ cs, (notNull cs).isSome = true ↔ Opens IsNotNull cs :=
    fun _ => notNull_isSome_iff
  have hauto : ∀ cs, (autoIncrement cs).isSome = true ↔ Opens IsAutoIncrement cs :=
    fun _ => autoIncrement_isSome_iff
  obtain ⟨⟨name, type, rest⟩, hhead, rfl⟩ := columnHead_of_parseColumn h
  refine ⟨name, type, rest, hhead, fun hcomment => ⟨?_, ?_⟩, ?_⟩
  · rw [← occurs_attributes_iff searched_notNull rfl hnotNull hcomment]
    simp [columnOf]
  · have hparted : ¬ ∃ found ∈ search columnComment none rest,
        Parted IsAutoIncrement found.1 found.2.2 := by
      rintro ⟨found, hfound, hparted⟩
      exact not_parted_autoIncrement hfound hparted
    have hiff := occurs_attributes_iff searched_autoIncrement rfl hauto hcomment
    rwa [or_iff_left hparted] at hiff
  · intro ι f g items hrest hf hg hclear part' column' name' type' h' hhead'
    obtain ⟨head', hfound', rfl⟩ := columnHead_of_parseColumn h'
    rw [hhead'] at hfound'
    obtain rfl := Option.some.inj hfound'
    obtain ⟨hN, hN'⟩ := hclear IsNotNull (.inl rfl)
    obtain ⟨hA, hA'⟩ := hclear IsAutoIncrement (.inr rfl)
    constructor
    · have hiff := stands_fill searched_notNull hf hg
      rw [← hrest, ← hN.occurs_iff_stands searched_notNull rfl hnotNull,
        ← hN'.occurs_iff_stands searched_notNull rfl hnotNull, ← Bool.eq_iff_iff] at hiff
      exact congrArg (!·) hiff
    · have hiff := stands_fill searched_autoIncrement hf hg
      rw [← hrest, ← hA.occurs_iff_stands searched_autoIncrement rfl hauto,
        ← hA'.occurs_iff_stands searched_autoIncrement rfl hauto, ← Bool.eq_iff_iff] at hiff
      exact hiff

/-- A comment at the end of a text stands between no words. -/
theorem undisturbed_of_last {rest front body : List Char}
    (h : search columnComment none rest = some (front, body, [])) (hout : Outside front)
    (hburied : ¬ Buried W (attributes rest)) : Undisturbed W rest := by
  refine ⟨?_, ?_, hburied⟩
  · intro found hfound
    obtain rfl := Option.some.inj (h.symm.trans hfound)
    exact hout
  · rintro found hfound ⟨a, u, v, z, -, hbehind, -, hv, -⟩
    obtain rfl := Option.some.inj (h.symm.trans hfound)
    exact hv (List.append_eq_nil_iff.mp hbehind.symm).1

/-- A column whose comment says `NOT NULL` and whose default says `NULL`. -/
theorem parseColumn_flags_literals :
    let items : List (Item Bool) := " NOT NULL DEFAULT ".toList.map .char ++
      .literal '\'' true :: " COMMENT ".toList.map .char ++ [.literal '\'' false]
    let f : Bool → List Char := fun _ => []
    let g : Bool → List Char := fun i => if i then "it''s NULL".toList else "NOT NULL".toList
    ∃ column column', parseColumn ("x text".toList ++ fill f items) = some column ∧
      parseColumn ("x text".toList ++ fill g items) = some column' ∧ column'.nullable = false ∧
      column.nullable = column'.nullable ∧ column.autoIncrement = column'.autoIncrement := by
  intro items f g
  have hf : search columnComment none (fill f items)
      = some (" NOT NULL DEFAULT '' ".toList, [], []) := by decide
  have hg : search columnComment none (fill g items)
      = some (" NOT NULL DEFAULT 'it''s NULL' ".toList, "NOT NULL".toList, []) := by decide
  have hclear : ∀ W, W = IsNotNull ∨ W = IsAutoIncrement →
      Undisturbed W (fill f items) ∧ Undisturbed W (fill g items) := by
    rintro W (rfl | rfl)
    · exact ⟨undisturbed_of_last hf (by decide) (by decide),
        undisturbed_of_last hg (by decide) (by decide)⟩
    · exact ⟨undisturbed_of_last hf (by decide) (by decide),
        undisturbed_of_last hg (by decide) (by decide)⟩
  obtain ⟨column, h⟩ := Option.isSome_iff_exists.mp
    (show (parseColumn ("x text".toList ++ fill f items)).isSome by decide)
  obtain ⟨column', h', hnullable⟩ := Option.map_eq_some_iff.mp
    (show (parseColumn ("x text".toList ++ fill g items)).map (·.nullable) = some false by decide)
  obtain ⟨name, type, rest, hhead, -, hsame⟩ := parseColumn_flags h
  have hknown : columnHead ("x text".toList ++ fill f items)
      = some (['x'], "text".toList, fill f items) := by decide
  rw [hhead] at hknown
  obtain ⟨rfl, htail⟩ := Prod.mk.inj (Option.some.inj hknown)
  obtain ⟨rfl, rfl⟩ := Prod.mk.inj htail
  exact ⟨column, column', h, h', hnullable, hsame Bool f g items rfl (by decide) (by decide) hclear
    _ _ ['x'] "text".toList h' (by decide)⟩

/-- Words in a default, in a double-quoted comment, on both sides of a comment, and behind a default
that holds the keyword of a comment. -/
theorem parseColumn_flags_buried :
    let read (part : String) := (parseColumn part.toList).map fun c => (c.nullable, c.autoIncrement)
    read "x text DEFAULT 'NOT NULL'" = some (false, false) ∧
    columnHead "x text DEFAULT 'NOT NULL'".toList
      = some (['x'], "text".toList, " DEFAULT 'NOT NULL'".toList) ∧
    ¬ Stands IsNotNull " DEFAULT 'NOT NULL'".toList ∧
    read "x text DEFAULT 'AUTO_INCREMENT'" = some (true, true) ∧
    ¬ Stands IsAutoIncrement " DEFAULT 'AUTO_INCREMENT'".toList ∧
    read "x text COMMENT \"NOT NULL\"" = some (false, false) ∧
    ¬ Stands IsNotNull " COMMENT \"NOT NULL\"".toList ∧
    read "x text NOT COMMENT 'n' NULL" = some (false, false) ∧
    ¬ Stands IsNotNull " NOT COMMENT 'n' NULL".toList ∧
    read "x text DEFAULT 'COMMENT ''' NOT NULL COMMENT 'n'" = some (true, false) ∧
    Stands IsNotNull " DEFAULT 'COMMENT ''' NOT NULL COMMENT 'n'".toList := by
  decide +kernel

end CodeIndex.Sql
