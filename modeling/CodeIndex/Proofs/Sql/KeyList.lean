import CodeIndex.Proofs.Sql.Literals
import CodeIndex.Proofs.Sql.Search

/-!
# The columns that the list of a key names

The list of a key is cut at its commas, and each entry loses a sort order and then a size from its
end, the blanks around what is left and the quotes around that.  All of these go without a closing
parenthesis, but for the one of the size.  So the columns of a balanced list can be told from those
of any longer text in which a parenthesis closes behind the list: the entry that holds the stray
parenthesis names a column with more closing parentheses than its beginning in the list has.

* `keyColumns_entries` : what the columns of a list are.
* `run_of_closingParen` : the text in front of a closing parenthesis ends where the scan started.
* `keyColumns_append_ne` : a list and a longer text in which it is closed name different columns.
-/

namespace CodeIndex.Sql

open Text Position

/-! ## Sort orders and sizes -/

/-- The text without a suffix of the kind at its end and the blanks before it. -/
inductive Strips (P : List Char → Prop) : List Char → List Char → Prop
  | found {rest suffix : List Char} (h : P suffix) (hrest : Solid rest) :
      Strips P (rest ++ suffix) rest
  | absent {cs : List Char} (h : ∀ front suffix, cs = front ++ suffix → ¬P suffix) : Strips P cs cs

/-- What is stripped is a suffix of the kind, or nothing. -/
theorem Strips.exists_suffix {P : List Char → Prop} {cs rest : List Char} (h : Strips P cs rest) :
    ∃ suffix, cs = rest ++ suffix ∧ (P suffix ∨ suffix = []) := by
  cases h with
  | found h _ => exact ⟨_, rfl, .inl h⟩
  | absent _ => exact ⟨[], by simp, .inr rfl⟩

/-- A reader of the reversed text, for suffixes that may have blanks in front of them. -/
theorem strips_of_reader {P : List Char → Prop} {read : List Char → Option (List Char)}
    (hread : ∀ rev rest, read rev = some rest ↔
      ∃ suffix, P suffix ∧ rev = suffix.reverse ++ rest ∧ Flush rest)
    (hblank : ∀ gap suffix, (∀ c ∈ gap, isBlank c = true) → P suffix → P (gap ++ suffix))
    (cs : List Char) :
    Strips P cs (match read cs.reverse with | some rest => rest.reverse | none => cs) := by
  cases hfound : read cs.reverse with
  | some rest =>
      obtain ⟨suffix, hsuffix, hrev, hflush⟩ := (hread _ _).mp hfound
      have hcs : cs = rest.reverse ++ suffix := by
        rw [← List.reverse_inj, hrev]
        simp
      have hsolid : Solid rest.reverse := by
        rw [Solid, List.reverse_reverse]
        exact hflush
      simp only
      rw [hcs]
      exact .found hsuffix hsolid
  | none =>
      refine .absent ?_
      rintro front suffix rfl hsuffix
      obtain ⟨gap, hfront, hgap⟩ := exists_trimEnd front
      have hflush : Flush (trimEnd front).reverse := by
        intro c hc
        rw [List.head?_reverse] at hc
        exact not_blank_of_getLast?_trimEnd hc
      have hsome := (hread _ _).mpr ⟨gap ++ suffix, hblank gap suffix hgap hsuffix, rfl, hflush⟩
      have htext : (gap ++ suffix).reverse ++ (trimEnd front).reverse
          = (front ++ suffix).reverse := by
        rw [← List.reverse_append, ← List.append_assoc, ← hfront]
      rw [htext, hfound] at hsome
      cases hsome

/-- Blanks and the word of a sort order. -/
def IsOrder (suffix : List Char) : Prop :=
  ∃ gap word, gap ≠ [] ∧ (∀ c ∈ gap, isBlank c = true) ∧
    (Spells "ASC".toList word ∨ Spells "DESC".toList word) ∧ suffix = gap ++ word

/-- A number in parentheses, with blanks anywhere between the pieces and in front. -/
def IsSize (suffix : List Char) : Prop :=
  ∃ gap lead digits tail, suffix = gap ++ '(' :: (lead ++ (digits ++ (tail ++ [')']))) ∧
    (∀ c ∈ gap, isBlank c = true) ∧ (∀ c ∈ lead, isBlank c = true) ∧ digits ≠ [] ∧
    (∀ c ∈ digits, isDecimal c = true) ∧ ∀ c ∈ tail, isBlank c = true

/-- More blanks in front of a sort order belong to it. -/
theorem IsOrder.of_blank {gap suffix : List Char} (hgap : ∀ c ∈ gap, isBlank c = true)
    (h : IsOrder suffix) : IsOrder (gap ++ suffix) := by
  obtain ⟨more, word, hne, hmore, hword, rfl⟩ := h
  refine ⟨gap ++ more, word, by simp [hne], ?_, hword, by simp⟩
  intro c hc
  exact (List.mem_append.mp hc).elim (hgap c) (hmore c)

/-- More blanks in front of a size belong to it. -/
theorem IsSize.of_blank {gap suffix : List Char} (hgap : ∀ c ∈ gap, isBlank c = true)
    (h : IsSize suffix) : IsSize (gap ++ suffix) := by
  obtain ⟨more, lead, digits, tail, rfl, hmore, hrest⟩ := h
  refine ⟨gap ++ more, lead, digits, tail, by simp, ?_, hrest⟩
  intro c hc
  exact (List.mem_append.mp hc).elim (hgap c) (hmore c)

/-- Reversed letters are spelled by the reversed text. -/
theorem spells_reverse {letters text : List Char} (h : Spells letters text) :
    Spells letters.reverse text.reverse :=
  List.forall₂_reverse_iff.mpr h

/-- A sort order is read from its end as one of two words with blanks behind it. -/
theorem isOrder_iff {suffix : List Char} :
    IsOrder suffix ↔ ∃ word ∈ ["CSA", "CSED"], IsLead word suffix.reverse := by
  constructor
  · rintro ⟨gap, word, hne, hgap, hword, rfl⟩
    have hlead : ∀ reversed : String, Spells reversed.toList word.reverse →
        IsLead reversed (gap ++ word).reverse := fun reversed hspells =>
      ⟨word.reverse, gap.reverse, hspells, by simp [hne], by simpa using hgap, by simp⟩
    rcases hword with hasc | hdesc
    · exact ⟨"CSA", by decide, hlead "CSA" (spells_reverse hasc)⟩
    · exact ⟨"CSED", by decide, hlead "CSED" (spells_reverse hdesc)⟩
  · rintro ⟨reversed, hmem, letters, gap, hspells, hne, hgap, hsuffix⟩
    refine ⟨gap.reverse, letters.reverse, by simp [hne], by simpa using hgap, ?_, ?_⟩
    · rcases List.mem_cons.mp hmem with rfl | hmem
      · exact .inl (spells_reverse hspells)
      · rw [List.mem_singleton.mp hmem] at hspells
        exact .inr (spells_reverse hspells)
    · rw [← List.reverse_append, ← hsuffix, List.reverse_reverse]

/-- The sort order that is read from the end. -/
theorem sortOrder_eq_some_iff (rev rest : List Char) :
    (anyKeyword ["CSA", "CSED"] rev).bind blanks = some rest ↔
      ∃ suffix, IsOrder suffix ∧ rev = suffix.reverse ++ rest ∧ Flush rest := by
  have happart : ["CSA", "CSED"].Pairwise Apart := by decide
  rw [Option.bind_eq_some_iff]
  constructor
  · rintro ⟨mid, hmid, hrest⟩
    obtain ⟨word, hmem, hword⟩ := (anyKeyword_eq_some_iff happart).mp hmid
    obtain ⟨lead, hlead, hrev, hflush⟩ := keyword_blanks_eq_some_iff.mp
      (Option.bind_eq_some_iff.mpr ⟨mid, hword, hrest⟩)
    refine ⟨lead.reverse, isOrder_iff.mpr ⟨word, hmem, ?_⟩, ?_, hflush⟩
    · rwa [List.reverse_reverse]
    · rwa [List.reverse_reverse]
  · rintro ⟨suffix, hsuffix, hrev, hflush⟩
    obtain ⟨word, hmem, hlead⟩ := isOrder_iff.mp hsuffix
    obtain ⟨mid, hmid, hrest⟩ := Option.bind_eq_some_iff.mp
      (keyword_blanks_eq_some_iff.mpr ⟨_, hlead, hrev, hflush⟩)
    exact ⟨mid, (anyKeyword_eq_some_iff happart).mpr ⟨word, hmem, hmid⟩, hrest⟩

/-- A sort order at the end is dropped, and nothing else. -/
theorem strips_dropSortOrder (cs : List Char) : Strips IsOrder cs (dropSortOrder cs) :=
  strips_of_reader sortOrder_eq_some_iff (fun _ _ hgap h => h.of_blank hgap) cs

/-- A symbol is read where it stands in front. -/
theorem symbol_eq_some_iff {sym : Char} {cs rest : List Char} :
    symbol sym cs = some rest ↔ cs = sym :: rest := by
  cases cs with
  | nil => simp [symbol]
  | cons c cs =>
      by_cases hc : c = sym
      · simp [symbol, hc]
      · simp [symbol, hc]

/-- The size that is read from the end. -/
theorem reversedSize_eq_some_iff (rev rest : List Char) :
    reversedSize rev = some rest ↔
      ∃ suffix, IsSize suffix ∧ rev = suffix.reverse ++ rest ∧ Flush rest := by
  constructor
  · intro h
    simp only [reversedSize, Option.bind_eq_bind, Option.bind_eq_some_iff] at h
    obtain ⟨inner, hclose, h⟩ := h
    split at h
    · cases h
    · rename_i hdigits
      obtain ⟨behind, hopen, hrest⟩ := Option.bind_eq_some_iff.mp h
      rw [symbol_eq_some_iff] at hclose hopen
      obtain ⟨tail, htail, hinner⟩ := exists_run inner
      obtain ⟨lead, hleadBlank, hlead⟩ := exists_run ((trimStart inner).dropWhile isDecimal)
      obtain ⟨gap, hgapBlank, hgap⟩ := exists_run behind
      rw [← Option.some.inj hrest]
      refine ⟨gap.reverse ++ '(' :: (lead.reverse ++
        (((trimStart inner).takeWhile isDecimal).reverse ++ (tail.reverse ++ [')']))), ?_, ?_,
        flush_trimStart behind⟩
      · refine ⟨gap.reverse, lead.reverse, _, tail.reverse, rfl, by simpa using hgapBlank,
          by simpa using hleadBlank, by simpa using hdigits, ?_, by simpa using htail⟩
        intro c hc
        exact List.mem_takeWhile_imp (List.mem_reverse.mp hc)
      · have htext : rev = ')' :: (tail ++ ((trimStart inner).takeWhile isDecimal ++
            (lead ++ '(' :: (gap ++ trimStart behind)))) := by
          rw [hclose, ← hgap, ← hopen, ← hlead, List.takeWhile_append_dropWhile, ← hinner]
        rw [htext]
        simp
  · rintro ⟨suffix, ⟨gap, lead, digits, tail, rfl, hgap, hlead, hne, hdigits, htail⟩, rfl, hflush⟩
    have htext : (gap ++ '(' :: (lead ++ (digits ++ (tail ++ [')'])))).reverse ++ rest
        = ')' :: (tail.reverse ++ (digits.reverse ++ (lead.reverse ++ '(' ::
          (gap.reverse ++ rest)))) := by
      simp
    have hdecimal : ∀ c ∈ digits.reverse, isDecimal c = true := by simpa using hdigits
    obtain ⟨d, more, hmore⟩ := List.exists_cons_of_ne_nil (List.reverse_ne_nil_iff.mpr hne)
    have hstart : Flush (digits.reverse ++ (lead.reverse ++ '(' :: (gap.reverse ++ rest))) := by
      rw [hmore, List.cons_append, flush_cons]
      exact isBlank_of_isDecimal (hdecimal d (by rw [hmore]; exact List.mem_cons_self))
    have hstop : ∀ c, (lead.reverse ++ '(' :: (gap.reverse ++ rest)).head? = some c →
        isDecimal c = false := by
      intro c hc
      cases hlead' : lead.reverse with
      | nil =>
          rw [hlead'] at hc
          cases hc
          decide
      | cons b more =>
          rw [hlead'] at hc
          cases hc
          exact isDecimal_of_isBlank (hlead _ (by rw [← List.mem_reverse, hlead']; simp))
    obtain ⟨htake, hdrop⟩ := takeWhile_append_stop hdecimal hstop
    have hopen : Flush ('(' :: (gap.reverse ++ rest)) := by
      rw [flush_cons]
      decide
    rw [htext]
    simp only [reversedSize, symbol, if_true, Option.bind_eq_bind, Option.bind_some]
    rw [trimStart_run (by simpa using htail) hstart, htake, hdrop,
      trimStart_run (by simpa using hlead) hopen, if_neg (by simp [hne])]
    simp only [if_true, Option.bind_some]
    rw [trimStart_run (by simpa using hgap) hflush]

/-- A size at the end is dropped, and nothing else. -/
theorem strips_dropSize (cs : List Char) : Strips IsSize cs (dropSize cs) :=
  strips_of_reader reversedSize_eq_some_iff (fun _ _ hgap h => h.of_blank hgap) cs

/-! ## Entries -/

/-- The column that an entry of a list names: the entry without its sort order, then without its
size, without blanks around it and without the quotes around that. -/
structure EntryColumn (entry column : List Char) : Prop where
  unquoted : ∃ unordered unsized opening closing, Strips IsOrder entry unordered ∧
    Strips IsSize unordered unsized ∧ trim unsized = opening ++ column ++ closing ∧
    (∀ c ∈ opening, isIdentifierQuote c = true) ∧ ∀ c ∈ closing, isIdentifierQuote c = true
  head : ∀ c, column.head? = some c → isIdentifierQuote c = false
  last : ∀ c, column.getLast? = some c → isIdentifierQuote c = false

/-- What is dropped at both ends belongs to the class, and what is left neither starts nor ends
with a character of it. -/
theorem trimMatches_spec (p : Char → Bool) (cs : List Char) :
    (∃ opening closing, cs = opening ++ trimMatches p cs ++ closing ∧
      (∀ c ∈ opening, p c = true) ∧ ∀ c ∈ closing, p c = true) ∧
    (∀ c, (trimMatches p cs).head? = some c → p c = false) ∧
    ∀ c, (trimMatches p cs).getLast? = some c → p c = false := by
  have hback : cs.dropWhile p
      = trimMatches p cs ++ ((cs.dropWhile p).reverse.takeWhile p).reverse := by
    rw [trimMatches, dropTail, ← List.reverse_append, List.takeWhile_append_dropWhile,
      List.reverse_reverse]
  refine ⟨⟨cs.takeWhile p, ((cs.dropWhile p).reverse.takeWhile p).reverse, ?_,
    fun c hc => List.mem_takeWhile_imp hc,
    fun c hc => List.mem_takeWhile_imp (List.mem_reverse.mp hc)⟩, ?_, ?_⟩
  · rw [List.append_assoc, ← hback, List.takeWhile_append_dropWhile]
  · intro c hc
    have hhead := List.head?_dropWhile_not p cs
    rw [hback, List.head?_append, hc] at hhead
    exact hhead
  · intro c hc
    have hhead := List.head?_dropWhile_not p (cs.dropWhile p).reverse
    rw [trimMatches, dropTail, List.getLast?_reverse] at hc
    rw [hc] at hhead
    exact hhead

/-- The column of an entry is its name without order, size and quotes. -/
theorem entryColumn_keyColumn (entry : List Char) : EntryColumn entry (keyColumn entry) := by
  obtain ⟨⟨opening, closing, htext, hopening, hclosing⟩, hhead, hlast⟩ :=
    trimMatches_spec isIdentifierQuote (trim (dropSize (dropSortOrder entry)))
  exact ⟨⟨_, _, opening, closing, strips_dropSortOrder entry, strips_dropSize _, htext, hopening,
    hclosing⟩, hhead, hlast⟩

/-- **The columns of a list** are those that its entries name, in their order, without empty
ones. -/
theorem keyColumns_entries (list : List Char) : ∃ columns,
    List.Forall₂ EntryColumn (splitTopLevel list) columns ∧
      keyColumns list = (columns.filter (!·.isEmpty)).map String.ofList := by
  refine ⟨(splitTopLevel list).map keyColumn, ?_, rfl⟩
  rw [List.forall₂_map_right_iff]
  exact List.forall₂_same.mpr fun entry _ => entryColumn_keyColumn entry

/-! ## Closing parentheses in a column -/

/-- Trimming other characters leaves the count. -/
theorem count_trimMatches {p : Char → Bool} {c : Char} (hc : p c = false) (cs : List Char) :
    (trimMatches p cs).count c = cs.count c := by
  obtain ⟨⟨opening, closing, htext, hopening, hclosing⟩, -, -⟩ := trimMatches_spec p cs
  have hout : ∀ run : List Char, (∀ d ∈ run, p d = true) → run.count c = 0 := by
    intro run hrun
    rw [List.count_eq_zero]
    intro hmem
    rw [hrun c hmem] at hc
    cases hc
  have hcount := congrArg (List.count c) htext
  rw [List.count_append, List.count_append, hout opening hopening, hout closing hclosing] at hcount
  omega

/-- A sort order holds no closing parenthesis. -/
theorem not_mem_of_isOrder {suffix : List Char} (h : IsOrder suffix) : ')' ∉ suffix := by
  obtain ⟨gap, word, -, hgap, hword, rfl⟩ := h
  intro hmem
  rcases List.mem_append.mp hmem with hmem | hmem
  · exact absurd (hgap _ hmem) (by decide)
  · have hchar : isWordChar ')' = true := by
      rcases hword with hasc | hdesc
      · exact hasc.isWordChar (by decide) _ hmem
      · exact hdesc.isWordChar (by decide) _ hmem
    exact absurd hchar (by decide)

/-- A size closes one parenthesis, as its last character. -/
theorem IsSize.exists_front {suffix : List Char} (h : IsSize suffix) : ∃ gap inner,
    suffix = gap ++ '(' :: (inner ++ [')']) ∧ ')' ∉ gap ∧
      ∀ c ∈ inner, isQuote c = false ∧ c ≠ '(' ∧ c ≠ ')' := by
  obtain ⟨gap, lead, digits, tail, rfl, hgap, hlead, -, hdigits, htail⟩ := h
  refine ⟨gap, lead ++ (digits ++ tail), by simp, ?_, ?_⟩
  · intro hmem
    exact absurd (hgap _ hmem) (by decide)
  · intro c hc
    rcases List.mem_append.mp hc with hc | hc
    · exact plain_of_isBlank (hlead c hc)
    · rcases List.mem_append.mp hc with hc | hc
      · exact plain_of_class (by decide) (hdigits c hc)
      · exact plain_of_isBlank (htail c hc)

/-- An entry is its name, a size and a sort order, and only the size takes closing parentheses away.
-/
theorem keyColumn_eq (cs : List Char) : ∃ unsized order size,
    cs = unsized ++ size ++ order ∧ ')' ∉ order ∧ (IsSize size ∨ size = []) ∧
      (keyColumn cs).count ')' = unsized.count ')' := by
  obtain ⟨order, hcs, horder⟩ := (strips_dropSortOrder cs).exists_suffix
  obtain ⟨size, hsized, hsize⟩ := (strips_dropSize (dropSortOrder cs)).exists_suffix
  refine ⟨dropSize (dropSortOrder cs), order, size, ?_, ?_, hsize, ?_⟩
  · rw [← hsized]
    exact hcs
  · rcases horder with horder | rfl
    · exact not_mem_of_isOrder horder
    · exact List.not_mem_nil
  · rw [keyColumn, count_trimMatches (by decide)]
    exact count_trimMatches (p := isBlank) (by decide) _

/-- No closing parenthesis is added. -/
theorem count_keyColumn_le (cs : List Char) : (keyColumn cs).count ')' ≤ cs.count ')' := by
  obtain ⟨unsized, order, size, hcs, -, -, hcount⟩ := keyColumn_eq cs
  have htext := congrArg (List.count ')') hcs
  rw [List.count_append, List.count_append] at htext
  omega

/-- Where a parenthesis is still open, the scan does not stand where it started. -/
theorem run_open_ne {front inner : List Char}
    (hinner : ∀ c ∈ inner, isQuote c = false ∧ c ≠ '(' ∧ c ≠ ')') :
    start.run (front ++ '(' :: inner) ≠ start := by
  intro h
  rw [run_append, run_cons] at h
  have hproper := proper_start.run front
  have hstep := (hproper.step '(').outside_of_run (fun c hc => (hinner c hc).1)
    (congrArg Position.quotes h)
  have hout := hproper.outside_of_step (by decide) hstep
  generalize start.run front = p at h hout
  obtain ⟨s, depth⟩ := p
  replace hout : s = .outside := hout
  rw [hout, step_open, run_plain hinner] at h
  cases congrArg Position.depth h

/-- **A stray parenthesis shows in the column.**  The entry that holds it names a column with more
closing parentheses than stand in front of it. -/
theorem count_lt_keyColumn {front : List Char} (hfront : start.run front = start)
    (behind : List Char) :
    front.count ')' < (keyColumn (trim (front ++ ')' :: behind))).count ')' := by
  obtain ⟨unsized, order, size, htext, horder, hsize, hcount⟩ :=
    keyColumn_eq (trim (front ++ ')' :: behind))
  have htrim : (trim (front ++ ')' :: behind)).count ')' = (front ++ ')' :: behind).count ')' :=
    count_trimMatches (p := isBlank) (by decide) _
  have hall := congrArg (List.count ')') htext
  rw [htrim, List.count_append, List.count_append, List.count_append, List.count_cons_self,
    List.count_eq_zero.mpr horder] at hall
  rw [hcount]
  rcases hsize with hsize | rfl
  · obtain ⟨gap, inner, rfl, hgap, hinner⟩ := hsize.exists_front
    have hone : (gap ++ '(' :: (inner ++ [')'])).count ')' = 1 := by
      have hout : ')' ∉ inner := fun hmem => (hinner _ hmem).2.2 rfl
      simp [List.count_append, List.count_eq_zero.mpr hgap, List.count_eq_zero.mpr hout]
    by_cases hbehind : ')' ∈ behind
    · have hpos := List.count_pos_iff.mpr hbehind
      omega
    · -- The size would close with the stray parenthesis and open inside the list.
      obtain ⟨lead, tail, htrimmed, -, htail⟩ := exists_trim (front ++ ')' :: behind)
      have htailOut : ')' ∉ tail := fun hmem => absurd (htail _ hmem) (by decide)
      have hfirst : splitLast? ')' (front ++ ')' :: behind) = some (front, behind) :=
        splitLast?_eq_some_iff.mpr ⟨rfl, hbehind⟩
      have hsecond : splitLast? ')' (front ++ ')' :: behind)
          = some (lead ++ unsized ++ gap ++ '(' :: inner, order ++ tail) := by
        rw [splitLast?_eq_some_iff]
        refine ⟨?_, by simp [horder, htailOut]⟩
        rw [htrimmed, htext]
        simp
      rw [hfirst, Option.some.injEq, Prod.mk.injEq] at hsecond
      rw [hsecond.1] at hfront
      exact absurd hfront (run_open_ne hinner)
  · rw [List.count_nil] at hall
    omega

/-! ## A list and what closes it -/

/-- A body is closed only where its scan started. -/
theorem nextDepth_eq_none {p : Position} (hp : p.Proper) {c : Char}
    (h : nextDepth p.quotes p.depth c = none) : p = start := by
  obtain ⟨s, depth⟩ := p
  simp only [nextDepth] at h
  split at h
  · cases h
  · split at h
    · rename_i hclose
      split at h
      · rename_i hdepth
        rcases hp with hout | ⟨q, escaped, -, hquoted⟩
        · replace hout : s = .outside := hout
          rw [hout, hdepth]
          rfl
        · replace hquoted : s = ⟨some q, escaped⟩ := hquoted
          rw [hquoted] at hclose
          cases hclose
      · cases h
    · cases h

/-- The depth that is scanned for the end is that of the position. -/
theorem nextDepth_eq_some {p : Position} {c : Char} {next : Nat}
    (h : nextDepth p.quotes p.depth c = some next) : next = (p.step c).depth := by
  simp only [nextDepth] at h
  simp only [Position.step]
  split at h
  · rename_i hopen
    rw [if_pos hopen, Option.some.inj h]
  · rename_i hopen
    rw [if_neg hopen]
    split at h
    · rename_i hclose
      rw [if_pos hclose]
      split at h
      · cases h
      · rw [Option.some.inj h]
    · rename_i hclose
      rw [if_neg hclose, Option.some.inj h]

/-- In front of the closing parenthesis the scan is back at the start. -/
theorem run_of_closingParenFrom {p : Position} (hp : p.Proper) {cs body tail : List Char}
    (h : closingParenFrom p.quotes p.depth cs = some (body, tail)) : p.run body = start := by
  induction cs generalizing p body with
  | nil => cases h
  | cons c cs ih =>
      rw [closingParenFrom_cons] at h
      cases hnext : nextDepth p.quotes p.depth c with
      | none =>
          rw [hnext] at h
          obtain ⟨rfl, -⟩ := Prod.mk.inj (Option.some.inj h)
          exact nextDepth_eq_none hp hnext
      | some next =>
          rw [hnext, nextDepth_eq_some hnext] at h
          obtain ⟨⟨more, rest⟩, hmore, heq⟩ := Option.map_eq_some_iff.mp h
          obtain ⟨rfl, rfl⟩ := Prod.mk.inj heq
          exact ih (hp.step c) hmore

/-- **A list ends where its scan started**: outside quotes and parentheses. -/
theorem run_of_closingParen {cs body tail : List Char} (h : closingParen cs = some (body, tail)) :
    start.run body = start :=
  run_of_closingParenFrom proper_start h

/-- What stands in front of the first comma of a text belongs to its first piece. -/
theorem piecesFrom_append_uncut {p : Position} (hp : p.Proper) {front : List Char}
    (hfront : Uncut p front) (rest : List Char) :
    piecesFrom p.quotes p.depth (front ++ rest)
      = (piecesFrom (p.run front).quotes (p.run front).depth rest).modifyHead (front ++ ·) := by
  induction front generalizing p with
  | nil => exact (congrFun List.modifyHead_id _).symm
  | cons c front ih =>
      obtain ⟨hhere, hmore⟩ := uncut_cons.mp hfront
      have hkeep : (p.quotes.structural c && c = ',' && p.depth = 0) = false := by
        rw [← Bool.not_eq_true, cut_iff hp]
        exact hhere
      have hpieces : piecesFrom p.quotes p.depth (c :: (front ++ rest))
          = (piecesFrom (p.step c).quotes (p.step c).depth (front ++ rest)).modifyHead (c :: ·) :=
        piecesFrom_cons _ hkeep
      rw [List.cons_append, hpieces, ih (hp.step c) hmore, List.modifyHead_modifyHead]
      rfl

/-- The columns of a list, those that are no empty texts, are those of its pieces. -/
theorem mem_keyColumns_iff {column list : List Char} (hne : column ≠ []) :
    String.ofList column ∈ keyColumns list ↔
      ∃ piece ∈ pieces list, keyColumn (trim piece) = column := by
  constructor
  · intro h
    obtain ⟨other, hother, heq⟩ := List.mem_map.mp h
    rw [String.ofList_inj] at heq
    subst heq
    obtain ⟨entry, hentry, hcolumn⟩ := List.mem_map.mp (List.mem_filter.mp hother).1
    obtain ⟨piece, hpiece, rfl⟩ := List.mem_map.mp (List.mem_filter.mp hentry).1
    exact ⟨piece, hpiece, hcolumn⟩
  · intro h
    obtain ⟨piece, hpiece, rfl⟩ := h
    have hentry : trim piece ≠ [] := by
      intro hnil
      rw [hnil] at hne
      exact hne rfl
    refine List.mem_map.mpr
      ⟨keyColumn (trim piece), List.mem_filter.mpr ⟨?_, by simpa using hne⟩, rfl⟩
    refine List.mem_map.mpr ⟨trim piece, List.mem_filter.mpr ⟨?_, by simpa using hentry⟩, rfl⟩
    exact List.mem_map.mpr ⟨piece, hpiece, rfl⟩

/-- A comma outside quotes and parentheses divides the columns. -/
theorem keyColumns_cut {front : List Char} (h : start.run front = start) (rest : List Char) :
    keyColumns (front ++ ',' :: rest) = keyColumns front ++ keyColumns rest := by
  simp only [keyColumns, splitTopLevel_cut h, List.map_append, List.filter_append]

/-- One entry and a longer text in which it is closed name different columns. -/
theorem keyColumns_append_ne_of_uncut {list : List Char} (hlist : start.run list = start)
    (huncut : Uncut start list) (behind : List Char) :
    keyColumns (list ++ ')' :: behind) ≠ keyColumns list := by
  intro heq
  have hpieces := piecesFrom_append_uncut proper_start huncut (')' :: behind)
  rw [hlist] at hpieces
  change pieces (list ++ ')' :: behind) = (pieces (')' :: behind)).modifyHead (list ++ ·) at hpieces
  have hstray : pieces (')' :: behind) = (pieces behind).modifyHead (')' :: ·) :=
    piecesFrom_cons behind rfl
  obtain ⟨first, more, hfirst⟩ := List.exists_cons_of_ne_nil (piecesFrom_ne_nil .outside 0 behind)
  change pieces behind = first :: more at hfirst
  rw [hstray, hfirst, List.modifyHead_cons, List.modifyHead_cons] at hpieces
  have hcount := count_lt_keyColumn hlist first
  have hne : keyColumn (trim (list ++ ')' :: first)) ≠ [] := by
    intro hnil
    rw [hnil] at hcount
    cases hcount
  have hmem := (mem_keyColumns_iff hne).mpr ⟨_, by rw [hpieces]; exact List.mem_cons_self, rfl⟩
  rw [heq, mem_keyColumns_iff hne, pieces_of_uncut huncut] at hmem
  obtain ⟨piece, hpiece, hcolumn⟩ := hmem
  rw [List.mem_singleton.mp hpiece] at hcolumn
  have hless := count_keyColumn_le (trim list)
  have htrim : (trim list).count ')' = list.count ')' :=
    count_trimMatches (p := isBlank) (by decide) list
  rw [hcolumn] at hless
  omega

/-- **A list that is read too far names other columns**: those of a balanced list are never those
of a longer text in which a parenthesis closes behind the list. -/
theorem keyColumns_append_ne {list : List Char} (hlist : start.run list = start)
    (behind : List Char) : keyColumns (list ++ ')' :: behind) ≠ keyColumns list := by
  by_cases huncut : Uncut start list
  · exact keyColumns_append_ne_of_uncut hlist huncut behind
  · -- The columns in front of a comma are the same in both, so the comparison goes on behind it.
    simp only [Uncut, not_forall, not_not] at huncut
    obtain ⟨front, rest, rfl, hfront⟩ := huncut
    rw [run_append, hfront, run_cons, step_comma] at hlist
    rw [List.append_assoc, List.cons_append, keyColumns_cut hfront, keyColumns_cut hfront]
    intro heq
    exact keyColumns_append_ne hlist behind (List.append_cancel_left heq)
termination_by list.length

end CodeIndex.Sql
