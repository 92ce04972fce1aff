import Mathlib.Data.List.Induction
import CodeIndex.Proofs.Sql.Template
import CodeIndex.Proofs.Text.Pieces
import CodeIndex.Proofs.Text.Squeeze

/-!
# The cut of a body at its commas

A body is cut at the commas that stand outside quotes at parenthesis depth zero, whether or not
its quotes and parentheses are closed.  Behind such a comma the scan stands where it started, so
each piece is scanned by itself as it was inside the body; and as blanks do not move the scan,
this is still so for the trimmed parts, and for the parts when they are joined again.

* `Level` : the texts behind which a scan stands outside quotes, at a given depth.
* `level_iff` : they are those after which the scan state says so.
* `cut_piecesFrom`, `pieces_join` : the pieces are the one way to cut a body at such commas.
* `splitTopLevel_exact` : the cut of a body and its parts.
-/

namespace CodeIndex.Sql

open Text

/-! ## Where a scan stands -/

/-- A text that, read from its start, ends outside quotes at the given depth of parentheses.  An
unmatched closing parenthesis leaves the depth at zero. -/
inductive Level : Nat → List Char → Prop
  | nil : Level 0 []
  | plain {depth : Nat} {cs : List Char} {c : Char} (h : Level depth cs)
      (hquote : isQuote c = false) (hopen : c ≠ '(') (hclose : c ≠ ')') : Level depth (cs ++ [c])
  | opened {depth : Nat} {cs : List Char} (h : Level depth cs) : Level (depth + 1) (cs ++ ['('])
  | closed {depth : Nat} {cs : List Char} (h : Level depth cs) : Level (depth - 1) (cs ++ [')'])
  | quoted {depth : Nat} {cs body : List Char} {q : Char} (h : Level depth cs)
      (hquote : isQuote q = true) (hbody : Escaped q body) :
      Level depth (cs ++ q :: (body ++ [q]))

/-- Where a scan for the commas of a body stands. -/
structure Position where
  quotes : QuoteState
  depth : Nat

namespace Position

/-- Outside quotes and parentheses, as in front of a body. -/
def start : Position := ⟨.outside, 0⟩

/-- Read one character. -/
def step (p : Position) (c : Char) : Position where
  quotes := p.quotes.step c
  depth := if p.quotes.structural c && c = '(' then p.depth + 1
    else if p.quotes.structural c && c = ')' then p.depth - 1 else p.depth

/-- Read a text. -/
def run (p : Position) (cs : List Char) : Position := cs.foldl step p

@[simp] theorem run_nil (p : Position) : p.run [] = p := rfl

@[simp] theorem run_cons (p : Position) (c : Char) (cs : List Char) :
    p.run (c :: cs) = (p.step c).run cs := rfl

@[simp] theorem run_append (p : Position) (u w : List Char) : p.run (u ++ w) = (p.run u).run w :=
  List.foldl_append

/-- Outside quotes nothing is escaped, and inside them the text is between quotes. -/
def Proper (p : Position) : Prop :=
  p.quotes = .outside ∨ ∃ q escaped, isQuote q = true ∧ p.quotes = ⟨some q, escaped⟩

/-- The start is proper. -/
theorem proper_start : start.Proper := .inl rfl

/-- A character that is neither quote nor parenthesis leaves the scan outside where it is. -/
theorem step_plain {c : Char} (hquote : isQuote c = false) (hopen : c ≠ '(') (hclose : c ≠ ')')
    (depth : Nat) : (⟨.outside, depth⟩ : Position).step c = ⟨.outside, depth⟩ := by
  simp [step, QuoteState.step_plain hquote, hopen, hclose]

/-- A scan stays proper. -/
theorem Proper.step {p : Position} (h : p.Proper) (c : Char) : (p.step c).Proper := by
  obtain ⟨s, depth⟩ := p
  rcases h with hout | ⟨q, escaped, hq, hquoted⟩
  · replace hout : s = .outside := hout
    subst hout
    by_cases hc : isQuote c = true
    · exact .inr ⟨c, false, hc, QuoteState.step_quote hc⟩
    · exact .inl (QuoteState.step_plain (by simpa using hc))
  · replace hquoted : s = ⟨some q, escaped⟩ := hquoted
    subst hquoted
    cases escaped with
    | true => exact .inr ⟨q, false, hq, rfl⟩
    | false =>
        by_cases hslash : c = '\\'
        · subst hslash
          exact .inr ⟨q, true, hq, rfl⟩
        · by_cases hclose : c = q
          · subst hclose
            exact .inl (QuoteState.step_close hq)
          · exact .inr ⟨q, false, hq, QuoteState.step_inside ⟨hclose, hslash⟩⟩

/-- Only a quote takes the scan outside. -/
theorem Proper.outside_of_step {p : Position} (h : p.Proper) {c : Char} (hc : isQuote c = false)
    (hstep : (p.step c).quotes = .outside) : p.quotes = .outside := by
  obtain ⟨s, depth⟩ := p
  rcases h with hout | ⟨q, escaped, hq, hquoted⟩
  · exact hout
  · replace hquoted : s = ⟨some q, escaped⟩ := hquoted
    subst hquoted
    have hne : c ≠ q := by
      rintro rfl
      rw [hc] at hq
      cases hq
    have hquote : ((QuoteState.mk (some q) escaped).step c).quote = some q := by
      cases escaped with
      | true => rfl
      | false =>
          by_cases hslash : c = '\\'
          · subst hslash
            rfl
          · exact congrArg QuoteState.quote (QuoteState.step_inside ⟨hne, hslash⟩)
    have hnone := congrArg QuoteState.quote hstep
    cases hquote.symm.trans hnone

/-- A parenthesis outside quotes opens a level. -/
theorem step_open (depth : Nat) :
    (⟨.outside, depth⟩ : Position).step '(' = ⟨.outside, depth + 1⟩ := rfl

/-- A parenthesis outside quotes closes a level. -/
theorem step_close (depth : Nat) :
    (⟨.outside, depth⟩ : Position).step ')' = ⟨.outside, depth - 1⟩ := rfl

/-- A quote outside quotes opens a literal. -/
theorem step_quote {q : Char} (hq : isQuote q = true) (depth : Nat) :
    (⟨.outside, depth⟩ : Position).step q = ⟨.inside q, depth⟩ := by
  simp [step, QuoteState.step_quote hq, QuoteState.structural_quote hq]

/-- A plain character stays in its literal. -/
theorem step_inside_plain {q c : Char} (hquote : c ≠ q) (hslash : c ≠ '\\') (depth : Nat) :
    (⟨.inside q, depth⟩ : Position).step c = ⟨.inside q, depth⟩ := by
  simp [step, QuoteState.step_inside ⟨hquote, hslash⟩, QuoteState.structural_inside]

/-- The quote of a literal closes it. -/
theorem step_inside_quote {q : Char} (hq : isQuote q = true) (depth : Nat) :
    (⟨.inside q, depth⟩ : Position).step q = ⟨.outside, depth⟩ := by
  simp [step, QuoteState.step_close hq, QuoteState.structural_inside]

/-- The scan passes over the text of a literal. -/
theorem run_escaped {q : Char} (hq : isQuote q = true) {body : List Char} (h : Escaped q body)
    (depth : Nat) : (⟨.inside q, depth⟩ : Position).run (body ++ [q]) = ⟨.outside, depth⟩ := by
  induction h with
  | nil => exact step_inside_quote hq depth
  | plain hquote hslash _ ih =>
      rw [List.cons_append, run_cons, step_inside_plain hquote hslash, ih]
  | slash _ ih => exact ih
  | doubled _ ih =>
      rw [List.cons_append, List.cons_append, run_cons, step_inside_quote hq, run_cons,
        step_quote hq, ih]

end Position

open Position

/-- Escaped texts are escaped together. -/
theorem Escaped.append {q : Char} {u w : List Char} (hu : Escaped q u) (hw : Escaped q w) :
    Escaped q (u ++ w) := by
  induction hu with
  | nil => exact hw
  | plain hquote hslash _ ih => exact .plain hquote hslash ih
  | slash _ ih => exact .slash ih
  | doubled _ ih => exact .doubled ih

/-- What a text looks like behind which the scan stands at a place. -/
inductive Reaches : Position → List Char → Prop
  | outside {depth : Nat} {cs : List Char} (h : Level depth cs) : Reaches ⟨.outside, depth⟩ cs
  | inside {depth : Nat} {cs body : List Char} {q : Char} (h : Level depth cs)
      (hquote : isQuote q = true) (hbody : Escaped q body) :
      Reaches ⟨.inside q, depth⟩ (cs ++ q :: body)
  | escape {depth : Nat} {cs body : List Char} {q : Char} (h : Level depth cs)
      (hquote : isQuote q = true) (hbody : Escaped q body) :
      Reaches ⟨⟨some q, true⟩, depth⟩ (cs ++ q :: (body ++ ['\\']))

/-- What the scan reaches is described one character further. -/
theorem Reaches.step {p : Position} {cs : List Char} (h : Reaches p cs) (c : Char) :
    Reaches (p.step c) (cs ++ [c]) := by
  cases h with
  | @outside depth cs h =>
      by_cases hopen : c = '('
      · subst hopen
        exact .outside h.opened
      · by_cases hclose : c = ')'
        · subst hclose
          exact .outside h.closed
        · by_cases hquote : isQuote c = true
          · rw [step_quote hquote]
            exact .inside h hquote .nil
          · have hplain : isQuote c = false := by simpa using hquote
            rw [step_plain hplain hopen hclose]
            exact .outside (h.plain hplain hopen hclose)
  | @inside depth cs body q h hquote hbody =>
      rw [List.append_assoc, List.cons_append]
      by_cases hslash : c = '\\'
      · subst hslash
        exact .escape h hquote hbody
      · by_cases hclose : c = q
        · subst hclose
          rw [step_inside_quote hquote]
          exact .outside (h.quoted hquote hbody)
        · rw [step_inside_plain hclose hslash]
          exact .inside h hquote (hbody.append (.plain hclose hslash .nil))
  | @escape depth cs body q h hquote hbody =>
      have htext : cs ++ q :: (body ++ ['\\']) ++ [c] = cs ++ q :: (body ++ ['\\', c]) := by simp
      rw [htext]
      exact .inside h hquote (hbody.append (.slash .nil))

/-- The scan stands where its text leaves it. -/
theorem reaches_run (cs : List Char) : Reaches (start.run cs) cs := by
  induction cs using List.reverseRecOn with
  | nil => exact .outside .nil
  | append_singleton cs c ih =>
      rw [run_append]
      exact ih.step c

/-- **The scan tells where a text ends.**  It stands outside quotes at some depth exactly behind
the texts that end there. -/
theorem level_iff {depth : Nat} {cs : List Char} :
    Level depth cs ↔ start.run cs = ⟨.outside, depth⟩ := by
  constructor
  · intro h
    induction h with
    | nil => rfl
    | plain h hquote hopen hclose ih =>
        rw [run_append, ih, run_cons, step_plain hquote hopen hclose, run_nil]
    | opened h ih => rw [run_append, ih, run_cons, step_open, run_nil]
    | closed h ih => rw [run_append, ih, run_cons, step_close, run_nil]
    | quoted h hquote hbody ih =>
        rw [run_append, ih, run_cons, step_quote hquote, run_escaped hquote hbody]
  · intro h
    have hreaches := reaches_run cs
    rw [h] at hreaches
    cases hreaches with
    | outside h => exact h

/-- A proper scan stays proper over a text. -/
theorem Position.Proper.run {p : Position} (hp : p.Proper) (cs : List Char) :
    (p.run cs).Proper := by
  induction cs generalizing p with
  | nil => exact hp
  | cons c cs ih => exact ih (hp.step c)

/-- Only quotes lead outside. -/
theorem Position.Proper.outside_of_run {p : Position} (hp : p.Proper) {w : List Char}
    (hw : ∀ c ∈ w, isQuote c = false) (hrun : (p.run w).quotes = .outside) :
    p.quotes = .outside := by
  induction w generalizing p with
  | nil => exact hrun
  | cons c w ih =>
      have hrest := ih (hp.step c) (fun d hd => hw d (List.mem_cons_of_mem _ hd)) hrun
      exact hp.outside_of_step (hw c List.mem_cons_self) hrest

/-- A text without quotes and parentheses does not move the scan outside. -/
theorem run_plain {w : List Char} (hw : ∀ c ∈ w, isQuote c = false ∧ c ≠ '(' ∧ c ≠ ')')
    (depth : Nat) : (⟨.outside, depth⟩ : Position).run w = ⟨.outside, depth⟩ := by
  induction w with
  | nil => rfl
  | cons c w ih =>
      obtain ⟨hquote, hopen, hclose⟩ := hw c List.mem_cons_self
      rw [run_cons, step_plain hquote hopen hclose]
      exact ih fun d hd => hw d (List.mem_cons_of_mem _ hd)

/-- A blank is no quote and no parenthesis. -/
theorem plain_of_isBlank {c : Char} (hc : isBlank c = true) :
    isQuote c = false ∧ c ≠ '(' ∧ c ≠ ')' :=
  plain_of_class (by decide) hc

/-- Blanks outside quotes do not move the scan. -/
theorem run_blank {gap : List Char} (h : ∀ c ∈ gap, isBlank c = true) (depth : Nat) :
    (⟨.outside, depth⟩ : Position).run gap = ⟨.outside, depth⟩ :=
  run_plain (fun c hc => plain_of_isBlank (h c hc)) depth

/-- Where blanks lead back to the start, the scan stood there in front of them. -/
theorem Position.Proper.eq_start_of_run {p : Position} (hp : p.Proper) {gap : List Char}
    (h : ∀ c ∈ gap, isBlank c = true) (hrun : p.run gap = start) : p = start := by
  obtain ⟨s, depth⟩ := p
  have hout : s = .outside := hp.outside_of_run (fun c hc => (plain_of_isBlank (h c hc)).1)
    (congrArg Position.quotes hrun)
  subst hout
  rwa [run_blank h] at hrun

/-! ## Where the scan is back at its start -/

/-- Read from `p`, the text holds no such mark at which the scan stands at the start. -/
def Unmet (mark : Char) (p : Position) (cs : List Char) : Prop :=
  ∀ u w, cs = u ++ mark :: w → p.run u ≠ start

/-- The empty text holds no mark. -/
theorem unmet_nil (mark : Char) (p : Position) : Unmet mark p [] := by
  intro u w h
  simp at h

/-- A text holds no such mark if it neither starts with one nor holds one behind its start. -/
theorem unmet_cons {mark : Char} {p : Position} {c : Char} {cs : List Char} :
    Unmet mark p (c :: cs) ↔ ¬ (c = mark ∧ p = start) ∧ Unmet mark (p.step c) cs := by
  constructor
  · intro h
    refine ⟨fun ⟨hc, hp⟩ => h [] cs (by simp [hc]) hp, ?_⟩
    rintro u w rfl
    exact h (c :: u) w rfl
  · rintro ⟨hhere, hrest⟩ u w heq
    cases u with
    | nil =>
        obtain ⟨hc, -⟩ := List.cons.inj heq
        exact fun hp => hhere ⟨hc, hp⟩
    | cons d u =>
        obtain ⟨rfl, hcs⟩ := List.cons.inj heq
        exact hrest u w hcs

/-- A mark outside quotes at depth zero is one where the scan started. -/
theorem meets_iff {p : Position} (hp : p.Proper) {mark : Char} (hmark : isQuote mark = false)
    (c : Char) :
    (p.quotes.structural c && c = mark && p.depth = 0) = true ↔ c = mark ∧ p = start := by
  obtain ⟨s, depth⟩ := p
  constructor
  · intro h
    simp only [Bool.and_eq_true, decide_eq_true_eq] at h
    obtain ⟨⟨hstructural, hc⟩, hdepth⟩ := h
    rcases hp with hout | ⟨q, escaped, -, hquoted⟩
    · replace hout : s = .outside := hout
      exact ⟨hc, by rw [hout, hdepth]; rfl⟩
    · replace hquoted : s = ⟨some q, escaped⟩ := hquoted
      rw [hquoted] at hstructural
      cases hstructural
  · rintro ⟨rfl, hstart⟩
    obtain ⟨rfl, rfl⟩ := Position.mk.inj hstart
    simp [QuoteState.structural_plain hmark]

/-! ## Pieces -/

/-- Read from `p`, the text holds no comma outside quotes and parentheses. -/
def Uncut (p : Position) (cs : List Char) : Prop :=
  ∀ u w, cs = u ++ ',' :: w → p.run u ≠ start

/-- The texts are what lies between the commas of their joined text that stand outside quotes and
parentheses, when it is read from `p`. -/
inductive Cut : Position → List (List Char) → Prop
  | last {p : Position} {piece : List Char} (h : Uncut p piece) : Cut p [piece]
  | cons {p : Position} {piece : List Char} {more : List (List Char)} (h : Uncut p piece)
      (hstart : p.run piece = start) (hmore : Cut start more) : Cut p (piece :: more)

/-- A text is cut into at least one piece. -/
theorem Cut.ne_nil {p : Position} {parts : List (List Char)} (h : Cut p parts) : parts ≠ [] := by
  cases h <;> simp

/-- The empty text holds no comma. -/
theorem uncut_nil (p : Position) : Uncut p [] := unmet_nil ',' p

/-- A text holds no such comma if it neither starts with one nor holds one behind its start. -/
theorem uncut_cons {p : Position} {c : Char} {cs : List Char} :
    Uncut p (c :: cs) ↔ ¬ (c = ',' ∧ p = start) ∧ Uncut (p.step c) cs := unmet_cons

/-- A comma is a cut exactly where the scan started. -/
theorem cut_iff {p : Position} (hp : p.Proper) (c : Char) :
    (p.quotes.structural c && c = ',' && p.depth = 0) = true ↔ c = ',' ∧ p = start :=
  meets_iff hp rfl c

/-- A comma between parts leaves the scan at the start. -/
theorem step_comma : start.step ',' = start := rfl

/-- **The pieces of a body are a cut of it**: between them lie its commas outside quotes and
parentheses. -/
theorem cut_piecesFrom {p : Position} (hp : p.Proper) (cs : List Char) :
    join [','] (piecesFrom p.quotes p.depth cs) = cs ∧ Cut p (piecesFrom p.quotes p.depth cs) := by
  induction cs generalizing p with
  | nil => exact ⟨rfl, .last (uncut_nil p)⟩
  | cons c cs ih =>
      obtain ⟨hjoin, hcut⟩ := ih (hp.step c)
      by_cases hhere : c = ',' ∧ p = start
      · obtain ⟨rfl, rfl⟩ := hhere
        have hpieces : piecesFrom start.quotes start.depth (',' :: cs)
            = [] :: piecesFrom start.quotes start.depth cs := rfl
        rw [step_comma] at hjoin hcut
        rw [hpieces, join_cons hcut.ne_nil, hjoin]
        exact ⟨rfl, .cons (uncut_nil _) rfl hcut⟩
      · have hkeep : (p.quotes.structural c && c = ',' && p.depth = 0) = false := by
          rw [← Bool.not_eq_true, cut_iff hp]
          exact hhere
        have hpieces : piecesFrom p.quotes p.depth (c :: cs)
            = (piecesFrom (p.step c).quotes (p.step c).depth cs).modifyHead (c :: ·) :=
          piecesFrom_cons cs hkeep
        rw [hpieces]
        generalize piecesFrom (p.step c).quotes (p.step c).depth cs = found at hjoin hcut
        subst hjoin
        cases hcut with
        | last h => exact ⟨rfl, .last (uncut_cons.mpr ⟨hhere, h⟩)⟩
        | cons h hstart hmore =>
            refine ⟨?_, .cons (uncut_cons.mpr ⟨hhere, h⟩) hstart hmore⟩
            rw [List.modifyHead_cons, join_cons hmore.ne_nil, join_cons hmore.ne_nil]
            rfl

/-- The cut of a text in which a comma is reached where the scan started. -/
theorem piecesFrom_append_comma {p : Position} (hp : p.Proper) {u : List Char}
    (hu : p.run u = start) (w : List Char) :
    piecesFrom p.quotes p.depth (u ++ ',' :: w)
      = piecesFrom p.quotes p.depth u ++ pieces w := by
  induction u generalizing p with
  | nil =>
      rw [run_nil] at hu
      subst hu
      rfl
  | cons c u ih =>
      have hrest := ih (hp.step c) hu
      have hne : piecesFrom (p.step c).quotes (p.step c).depth u ≠ [] := piecesFrom_ne_nil _ _ _
      by_cases hhere : c = ',' ∧ p = start
      · obtain ⟨rfl, rfl⟩ := hhere
        exact congrArg ([] :: ·) hrest
      · have hkeep : (p.quotes.structural c && c = ',' && p.depth = 0) = false := by
          rw [← Bool.not_eq_true, cut_iff hp]
          exact hhere
        have hpieces : ∀ v, piecesFrom p.quotes p.depth (c :: v)
            = (piecesFrom (p.step c).quotes (p.step c).depth v).modifyHead (c :: ·) :=
          fun v => piecesFrom_cons v hkeep
        rw [List.cons_append, hpieces, hpieces, hrest]
        obtain ⟨piece, more, hmore⟩ := List.exists_cons_of_ne_nil hne
        rw [hmore]
        rfl

/-- A text without a comma outside quotes and parentheses is one piece. -/
theorem pieces_of_uncut {cs : List Char} (h : Uncut start cs) : pieces cs = [cs] := by
  obtain ⟨hjoin, hcut⟩ := cut_piecesFrom proper_start cs
  change join [','] (pieces cs) = cs at hjoin
  change Cut start (pieces cs) at hcut
  cases hpieces : pieces cs with
  | nil => exact absurd hpieces hcut.ne_nil
  | cons piece more =>
      rw [hpieces] at hjoin hcut
      cases hcut with
      | last _ => rw [← hjoin]; rfl
      | cons _ hstart hmore =>
          rw [join_cons hmore.ne_nil, List.append_assoc, List.singleton_append] at hjoin
          exact absurd hstart (h piece _ hjoin.symm)

/-- **There is one way to cut.**  Texts cut at the commas of their joined text are its pieces. -/
theorem pieces_join {parts : List (List Char)} (h : Cut start parts) :
    pieces (join [','] parts) = parts := by
  induction parts with
  | nil => exact absurd rfl h.ne_nil
  | cons piece more ih =>
      cases h with
      | last hpiece => exact pieces_of_uncut hpiece
      | cons hpiece hstart hmore =>
          have happend := piecesFrom_append_comma proper_start hstart (join [','] more)
          rw [join_cons hmore.ne_nil, List.append_assoc, List.singleton_append]
          change pieces (piece ++ ',' :: join [','] more) = pieces piece ++ _ at happend
          rw [happend, ih hmore, pieces_of_uncut hpiece]
          rfl

/-! ## Parts -/

/-- No piece of a cut holds a comma outside quotes and parentheses. -/
theorem Cut.uncut {parts : List (List Char)} (h : Cut start parts) :
    ∀ part ∈ parts, Uncut start part := by
  induction parts with
  | nil => exact absurd rfl h.ne_nil
  | cons piece more ih =>
      intro part hpart
      cases h with
      | last hpiece =>
          rw [List.mem_singleton.mp hpart]
          exact hpiece
      | cons hpiece hstart hmore =>
          rcases List.mem_cons.mp hpart with rfl | hpart
          · exact hpiece
          · exact ih hmore part hpart

/-- Between any two groups of neighbouring pieces the scan stands where it started. -/
theorem Cut.run_join {p : Position} {front back : List (List Char)} (h : Cut p (front ++ back))
    (hfront : front ≠ []) (hback : back ≠ []) : p.run (join [','] front) = start := by
  induction front generalizing p with
  | nil => exact absurd rfl hfront
  | cons piece front ih =>
      cases front with
      | nil =>
          cases h with
          | last _ => exact absurd rfl hback
          | cons _ hstart _ => exact hstart
      | cons next front =>
          cases h with
          | cons _ hstart hmore =>
              have hrest := ih hmore (by simp)
              rw [join_cons (by simp), run_append, run_append, hstart]
              exact hrest

/-- Trimming brings no comma. -/
theorem Uncut.trim {cs : List Char} (h : Uncut start cs) : Uncut start (trim cs) := by
  obtain ⟨lead, tail, heq, hlead, -⟩ := exists_trim cs
  intro u w htrim
  have hcomma : cs = (lead ++ u) ++ ',' :: (w ++ tail) := by
    rw [heq, htrim]
    simp
  have hrun := h _ _ hcomma
  have hblank : start.run lead = start := run_blank hlead 0
  rwa [run_append, hblank] at hrun

/-- Trimming a text that ends where the scan started leaves one that does. -/
theorem run_trim {cs : List Char} (h : start.run cs = start) : start.run (trim cs) = start := by
  obtain ⟨lead, tail, heq, hlead, htail⟩ := exists_trim cs
  have hblank : start.run lead = start := run_blank hlead 0
  rw [heq, run_append, run_append, hblank] at h
  exact (proper_start.run (trim cs)).eq_start_of_run htail h

/-- A comma outside quotes and parentheses divides the parts. -/
theorem splitTopLevel_cut {u : List Char} (hu : start.run u = start) (w : List Char) :
    splitTopLevel (u ++ ',' :: w) = splitTopLevel u ++ splitTopLevel w := by
  have hpieces : pieces (u ++ ',' :: w) = pieces u ++ pieces w :=
    piecesFrom_append_comma proper_start hu w
  rw [splitTopLevel, hpieces, List.map_append, List.filter_append]
  rfl

/-- A text without such a comma is one part. -/
theorem splitTopLevel_of_uncut {part : List Char} (h : Uncut start part)
    (htrim : trim part = part) (hne : part ≠ []) : splitTopLevel part = [part] := by
  simp [splitTopLevel, pieces_of_uncut h, htrim, hne]

/-- A space in front is not seen. -/
theorem splitTopLevel_space (cs : List Char) : splitTopLevel (' ' :: cs) = splitTopLevel cs := by
  have hpieces : pieces (' ' :: cs) = (pieces cs).modifyHead (' ' :: ·) :=
    piecesFrom_cons cs rfl
  have htrim : ∀ piece, trim (' ' :: piece) = trim piece := fun piece => rfl
  rw [splitTopLevel, splitTopLevel, hpieces]
  cases pieces cs <;> simp [htrim]

/-- Trimmed pieces that are joined again with spaces behind the commas come apart again. -/
theorem splitTopLevel_rejoin {parts : List (List Char)} (h : Cut start parts) :
    splitTopLevel (join [',', ' '] ((parts.map trim).filter (!·.isEmpty)))
      = (parts.map trim).filter (!·.isEmpty) := by
  induction parts with
  | nil => exact absurd rfl h.ne_nil
  | cons piece more ih =>
      have hpart : trim piece ≠ [] → splitTopLevel (trim piece) = [trim piece] :=
        splitTopLevel_of_uncut (h.uncut piece List.mem_cons_self).trim
          (tight_iff.mp (tight_trim piece))
      by_cases hempty : trim piece = []
      · simp only [List.map_cons, hempty, List.isEmpty_nil, Bool.not_true,
          Bool.false_eq_true, not_false_eq_true, List.filter_cons_of_neg]
        cases h with
        | last _ => rfl
        | cons _ _ hmore => exact ih hmore
      · have hkept : ((piece :: more).map trim).filter (!·.isEmpty)
            = trim piece :: (more.map trim).filter (!·.isEmpty) := by
          simp [hempty]
        rw [hkept]
        cases h with
        | last _ => exact hpart hempty
        | cons _ hstart hmore =>
            have hrest := ih hmore
            cases hmoreKept : (more.map trim).filter (!·.isEmpty) with
            | nil => exact hpart hempty
            | cons next kept =>
                rw [hmoreKept] at hrest
                have htext : join [',', ' '] (trim piece :: next :: kept)
                    = trim piece ++ ',' :: ' ' :: join [',', ' '] (next :: kept) := by
                  simp [join]
                rw [htext, splitTopLevel_cut (run_trim hstart), splitTopLevel_space, hrest,
                  hpart hempty]
                rfl

/-- **The cut of a body is exact and stable.**  The body is its pieces with single commas between
them, and these are its commas outside quotes at parenthesis depth zero, all of them.  The parts
are the trimmed pieces that are not empty.  Each part is not empty, trimmed and one part by itself;
joined with commas and spaces, the parts are cut where they were joined. -/
theorem splitTopLevel_exact (body : List Char) :
    join [','] (pieces body) = body ∧
    (∀ a b, body = a ++ ',' :: b ∧ Level 0 a ↔ ∃ front back, pieces body = front ++ back ∧
      front ≠ [] ∧ back ≠ [] ∧ a = join [','] front ∧ b = join [','] back) ∧
    splitTopLevel body = ((pieces body).map trim).filter (!·.isEmpty) ∧
    (∀ part ∈ splitTopLevel body,
      part ≠ [] ∧ trim part = part ∧ splitTopLevel part = [part]) ∧
    splitTopLevel (join [',', ' '] (splitTopLevel body)) = splitTopLevel body := by
  have hpieces : ∀ cs, join [','] (pieces cs) = cs ∧ Cut start (pieces cs) :=
    cut_piecesFrom proper_start
  obtain ⟨hjoin, hcut⟩ := hpieces body
  refine ⟨hjoin, ?_, rfl, ?_, splitTopLevel_rejoin hcut⟩
  · intro a b
    constructor
    · rintro ⟨rfl, ha⟩
      have hsplit := piecesFrom_append_comma proper_start (level_iff.mp ha) b
      exact ⟨pieces a, pieces b, hsplit, (hpieces a).2.ne_nil, (hpieces b).2.ne_nil,
        (hpieces a).1.symm, (hpieces b).1.symm⟩
    · rintro ⟨front, back, hsplit, hfront, hback, rfl, rfl⟩
      rw [hsplit] at hjoin hcut
      refine ⟨?_, level_iff.mpr (hcut.run_join hfront hback)⟩
      rw [← hjoin, join_append hfront hback]
      simp
  · intro part hpart
    obtain ⟨hmem, hkept⟩ := List.mem_filter.mp hpart
    obtain ⟨piece, hpiece, rfl⟩ := List.mem_map.mp hmem
    have hne : trim piece ≠ [] := by simpa using hkept
    have htrim : trim (trim piece) = trim piece := tight_iff.mp (tight_trim piece)
    exact ⟨hne, htrim, splitTopLevel_of_uncut (hcut.uncut piece hpiece).trim htrim hne⟩

/-- A body with a stray parenthesis, an empty piece and a quote that is not closed. -/
theorem splitTopLevel_exact_unclosed :
    let body := "a), , b ('c,(', d), \"e, f ".toList
    let parts := ["a)".toList, "b ('c,(', d)".toList, "\"e, f".toList]
    splitTopLevel body = parts ∧ "\"e, f".toList ∈ splitTopLevel body ∧
      splitTopLevel "\"e, f".toList = ["\"e, f".toList] ∧
      splitTopLevel (join ", ".toList parts) = parts ∧
      ∃ a b, body = a ++ ',' :: b ∧ Level 0 a := by
  intro body parts
  have hparts : splitTopLevel body = parts := by decide
  have hmem : "\"e, f".toList ∈ splitTopLevel body := by rw [hparts]; decide
  obtain ⟨-, hcuts, -, hpart, hjoin⟩ := splitTopLevel_exact body
  refine ⟨hparts, hmem, (hpart _ hmem).2.2, ?_, ?_⟩
  · rw [hparts] at hjoin
    exact hjoin
  · exact ⟨_, _, (hcuts _ _).mpr ⟨["a)".toList], (pieces body).tail, by decide, by decide,
      by decide, rfl, rfl⟩⟩

end CodeIndex.Sql
