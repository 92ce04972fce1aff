import CodeIndex.Proofs.Render.Kept
import CodeIndex.Proofs.Sql.Cuts
import CodeIndex.Proofs.Sql.TemplateBody

/-!
# The parenthesis that closes a body

A body ends at the first closing parenthesis outside quotes at which the scan stands where it
started.  In front of that place no parenthesis outside quotes closes one that is not open, so the
depth is never cut off at zero there, and the body is nested as its counts say.  The commas of the
body at depth zero then lie between texts that are nested themselves, although the scan for them
would forgive a stray parenthesis.

* `Unquoted` : the characters of a text outside its quotes.
* `Nested` : the texts whose quotes are closed and whose parentheses are balanced.
* `closingParenFrom_eq_some_iff` : where the scan for the end of a body stops.
* `nested_iff` : what the scan knows about nested texts.
* `closingOffset?_eq` : the same place by its byte offset.
* `closingParen_encloses` : the body and its parts are nested.
-/

namespace CodeIndex.Sql

open Text Position
open Render (byteSize sliceTo? offsetsFrom byteSize_cons sliceTo?_append)

/-! ## Nested texts -/

/-- Every quote of the text is closed, and these are its characters outside quotes. -/
inductive Unquoted : List Char → List Char → Prop
  | nil : Unquoted [] []
  | plain {c : Char} {cs outer : List Char} (hquote : isQuote c = false) (h : Unquoted cs outer) :
      Unquoted (c :: cs) (c :: outer)
  | quoted {q : Char} {body cs outer : List Char} (hquote : isQuote q = true)
      (hbody : Escaped q body) (h : Unquoted cs outer) : Unquoted (q :: (body ++ q :: cs)) outer

/-- No beginning of the text has more closing than opening parentheses. -/
def Covered (outer : List Char) : Prop :=
  ∀ front, front <+: outer → front.count ')' ≤ front.count '('

/-- Every quote of the text is closed, and its parentheses outside quotes are balanced: as many are
closed as are opened, and in no beginning more. -/
def Nested (cs : List Char) : Prop :=
  ∃ outer, Unquoted cs outer ∧ outer.count '(' = outer.count ')' ∧ Covered outer

/-- The text outside quotes is collected part by part. -/
theorem Unquoted.append {u w a b : List Char} (hu : Unquoted u a) (hw : Unquoted w b) :
    Unquoted (u ++ w) (a ++ b) := by
  induction hu with
  | nil => exact hw
  | plain hquote _ ih => exact .plain hquote ih
  | quoted hquote hbody _ ih =>
      rw [List.cons_append, List.append_assoc, List.cons_append]
      exact .quoted hquote hbody ih

/-- A text that ends outside quotes has closed them all. -/
theorem Level.unquoted {depth : Nat} {cs : List Char} (h : Level depth cs) :
    ∃ outer, Unquoted cs outer := by
  induction h with
  | nil => exact ⟨[], .nil⟩
  | plain _ hquote _ _ ih =>
      obtain ⟨outer, houter⟩ := ih
      exact ⟨_, houter.append (.plain hquote .nil)⟩
  | opened _ ih =>
      obtain ⟨outer, houter⟩ := ih
      exact ⟨_, houter.append (.plain rfl .nil)⟩
  | closed _ ih =>
      obtain ⟨outer, houter⟩ := ih
      exact ⟨_, houter.append (.plain rfl .nil)⟩
  | quoted _ hquote hbody ih =>
      obtain ⟨outer, houter⟩ := ih
      exact ⟨_, houter.append (.quoted hquote hbody .nil)⟩

/-! ## The characters outside quotes -/

/-- The characters that a scan from the state finds outside quotes. -/
def outerFrom (s : QuoteState) : List Char → List Char
  | [] => []
  | c :: cs => if s.structural c then c :: outerFrom (s.step c) cs else outerFrom (s.step c) cs

theorem outerFrom_append (p : Position) (u w : List Char) :
    outerFrom p.quotes (u ++ w) = outerFrom p.quotes u ++ outerFrom (p.run u).quotes w := by
  induction u generalizing p with
  | nil => rfl
  | cons c u ih =>
      have hrest := ih (p.step c)
      change outerFrom (p.quotes.step c) (u ++ w) = outerFrom (p.quotes.step c) u ++ _ at hrest
      rw [List.cons_append, outerFrom, outerFrom, run_cons, hrest]
      split <;> rfl

/-- The text of a literal is not outside. -/
theorem outerFrom_escaped {q : Char} (hq : isQuote q = true) {body : List Char}
    (h : Escaped q body) (cs : List Char) :
    outerFrom (.inside q) (body ++ q :: cs) = outerFrom .outside cs := by
  induction h with
  | nil =>
      rw [List.nil_append, outerFrom, QuoteState.structural_inside, QuoteState.step_close hq]
      rfl
  | @plain c body hquote hslash _ ih =>
      rw [List.cons_append, outerFrom, QuoteState.structural_inside,
        QuoteState.step_inside ⟨hquote, hslash⟩]
      exact ih
  | slash _ ih => exact ih
  | doubled _ ih =>
      rw [List.cons_append, List.cons_append, outerFrom, QuoteState.structural_inside,
        QuoteState.step_close hq, if_neg (by simp), outerFrom, QuoteState.structural_quote hq,
        QuoteState.step_quote hq]
      exact ih

/-- **The scan finds the characters outside quotes**, and whether every quote is closed. -/
theorem unquoted_iff {cs outer : List Char} : Unquoted cs outer ↔
    (start.run cs).quotes = .outside ∧ outerFrom .outside cs = outer := by
  have hscan : ∀ {cs outer : List Char}, Unquoted cs outer → ∀ depth,
      ((⟨.outside, depth⟩ : Position).run cs).quotes = .outside ∧
        outerFrom .outside cs = outer := by
    intro cs outer h
    induction h with
    | nil => exact fun _ => ⟨rfl, rfl⟩
    | @plain c cs outer hquote _ ih =>
        intro depth
        have hstep : (⟨.outside, depth⟩ : Position).step c
            = ⟨.outside, ((⟨.outside, depth⟩ : Position).step c).depth⟩ :=
          congrArg (Position.mk · _) (QuoteState.step_plain hquote)
        rw [run_cons, hstep, outerFrom, QuoteState.structural_plain hquote,
          QuoteState.step_plain hquote, if_pos rfl, (ih 0).2]
        exact ⟨(ih _).1, rfl⟩
    | @quoted q body cs outer hquote hbody _ ih =>
        intro depth
        have htext : body ++ q :: cs = (body ++ [q]) ++ cs := by simp
        constructor
        · rw [run_cons, step_quote hquote, htext, run_append, run_escaped hquote hbody]
          exact (ih depth).1
        · rw [outerFrom, QuoteState.structural_quote hquote, QuoteState.step_quote hquote,
            if_neg (by simp), outerFrom_escaped hquote hbody]
          exact (ih depth).2
  constructor
  · exact fun h => hscan h 0
  · rintro ⟨houtside, rfl⟩
    have hlevel : Level (start.run cs).depth cs := by
      rw [level_iff, ← houtside]
    obtain ⟨outer, houter⟩ := hlevel.unquoted
    rw [(hscan houter 0).2]
    exact houter

/-- A character that the scan finds outside quotes stands there in the text. -/
theorem exists_of_outerFrom {p : Position} {cs f g : List Char} {c : Char}
    (h : outerFrom p.quotes cs = f ++ c :: g) : ∃ u w, cs = u ++ c :: w ∧
      outerFrom p.quotes u = f ∧ (p.run u).quotes.structural c = true := by
  induction cs generalizing p f with
  | nil => simp [outerFrom] at h
  | cons d cs ih =>
      rw [outerFrom] at h
      split at h
      · rename_i hstructural
        cases f with
        | nil =>
            obtain ⟨rfl, -⟩ := List.cons.inj h
            exact ⟨[], cs, rfl, rfl, hstructural⟩
        | cons e f =>
            obtain ⟨rfl, hrest⟩ := List.cons.inj h
            obtain ⟨u, w, rfl, houter, hfound⟩ := @ih (p.step d) _ hrest
            refine ⟨d :: u, w, rfl, ?_, hfound⟩
            rw [outerFrom, if_pos hstructural]
            exact congrArg (d :: ·) houter
      · rename_i hquoted
        obtain ⟨u, w, rfl, houter, hfound⟩ := @ih (p.step d) _ h
        refine ⟨d :: u, w, rfl, ?_, hfound⟩
        rw [outerFrom, if_neg hquoted]
        exact houter

/-! ## Counting parentheses -/

/-- The depth of parentheses behind a character outside quotes. -/
def depthStep (depth : Nat) (c : Char) : Nat :=
  if c = '(' then depth + 1 else if c = ')' then depth - 1 else depth

/-- The depth of a scan depends on the characters outside quotes only. -/
theorem depth_run (p : Position) (cs : List Char) :
    (p.run cs).depth = (outerFrom p.quotes cs).foldl depthStep p.depth := by
  induction cs generalizing p with
  | nil => rfl
  | cons c cs ih =>
      rw [run_cons, ih, outerFrom]
      change (outerFrom (p.quotes.step c) cs).foldl depthStep (p.step c).depth = _
      by_cases h : p.quotes.structural c = true
      · simp [h, step, depthStep]
      · simp [h, step]

/-- The front of a covered text is covered. -/
theorem Covered.of_prefix {outer front : List Char} (h : Covered outer) (hfront : front <+: outer) :
    Covered front :=
  fun _ hother => h _ (hother.trans hfront)

/-- As long as nothing is closed that is not open, the depth counts what is left open. -/
theorem Covered.depth_add {outer : List Char} (h : Covered outer) :
    outer.foldl depthStep 0 + outer.count ')' = outer.count '(' := by
  induction outer using List.reverseRecOn with
  | nil => rfl
  | append_singleton outer c ih =>
      have hfront := ih (h.of_prefix (List.prefix_append _ _))
      have hwhole := h _ (List.prefix_refl _)
      rw [List.count_append, List.count_append] at hwhole
      rw [List.foldl_append, List.foldl_cons, List.foldl_nil, depthStep, List.count_append,
        List.count_append]
      by_cases hopen : c = '('
      · subst hopen
        simp only [if_true, List.count_singleton]
        simp
        omega
      · by_cases hclose : c = ')'
        · subst hclose
          simp at hwhole ⊢
          omega
        · simp [hopen, hclose]
          omega

/-- Nothing is closed that is not open exactly if the depth is not zero in front of any closing
parenthesis. -/
theorem covered_iff {outer : List Char} :
    Covered outer ↔ ∀ f g, outer = f ++ ')' :: g → f.foldl depthStep 0 ≠ 0 := by
  constructor
  · rintro h f g rfl
    have hclosed : f ++ [')'] <+: f ++ ')' :: g := ⟨g, by simp⟩
    have hcount := h _ hclosed
    have hdepth := (h.of_prefix (List.prefix_append f _)).depth_add
    simp at hcount
    omega
  · intro h
    induction outer using List.reverseRecOn with
    | nil =>
        intro front hfront
        rw [List.prefix_nil.mp hfront]
        exact Nat.le_refl _
    | append_singleton outer c ih =>
        have hcovered : Covered outer := ih fun f g heq => h f (g ++ [c]) (by rw [heq]; simp)
        intro front hfront
        rcases List.prefix_concat_iff.mp hfront with rfl | hshort
        · have hcount := hcovered outer (List.prefix_refl _)
          rw [List.count_append, List.count_append]
          by_cases hclose : c = ')'
          · subst hclose
            have hopen := h outer [] rfl
            have hdepth := hcovered.depth_add
            simp
            omega
          · simp [hclose]
            omega
        · exact hcovered front hshort

/-! ## The scan for the end of a body -/

/-- The scan for the end of a body, character by character. -/
theorem closingParenFrom_step (p : Position) (c : Char) (cs : List Char) :
    closingParenFrom p.quotes p.depth (c :: cs) =
      if p.quotes.structural c && c = ')' && p.depth = 0 then some ([], cs)
      else (closingParenFrom (p.step c).quotes (p.step c).depth cs).map (withFront [c]) := by
  have hnext : nextDepth p.quotes p.depth c =
      if p.quotes.structural c && c = ')' && p.depth = 0 then none else some (p.step c).depth := by
    unfold nextDepth step
    grind
  rw [closingParenFrom_cons, hnext]
  split <;> rfl

/-- **Where the scan for the end of a body stops**: at the first closing parenthesis at which it
stands where it started. -/
theorem closingParenFrom_eq_some_iff {p : Position} (hp : p.Proper) {cs body tail : List Char} :
    closingParenFrom p.quotes p.depth cs = some (body, tail) ↔
      cs = body ++ ')' :: tail ∧ p.run body = start ∧ Unmet ')' p body := by
  induction cs generalizing p body with
  | nil => simp [closingParenFrom]
  | cons c cs ih =>
      rw [closingParenFrom_step]
      by_cases hhere : c = ')' ∧ p = start
      · rw [if_pos ((meets_iff hp rfl c).mpr hhere)]
        obtain ⟨rfl, rfl⟩ := hhere
        constructor
        · intro h
          obtain ⟨rfl, rfl⟩ := Prod.mk.inj (Option.some.inj h)
          exact ⟨rfl, rfl, unmet_nil _ _⟩
        · rintro ⟨heq, -, hunmet⟩
          cases body with
          | nil =>
              obtain ⟨-, rfl⟩ := List.cons.inj heq
              rfl
          | cons d body =>
              obtain ⟨rfl, -⟩ := List.cons.inj heq
              exact absurd ⟨rfl, rfl⟩ (unmet_cons.mp hunmet).1
      · rw [if_neg (by rw [meets_iff hp rfl]; exact hhere), Option.map_eq_some_iff]
        constructor
        · rintro ⟨⟨inner, rest⟩, hfound, heq⟩
          obtain ⟨rfl, rfl⟩ := Prod.mk.inj heq
          obtain ⟨rfl, hrun, hunmet⟩ := (ih (hp.step c)).mp hfound
          exact ⟨rfl, hrun, unmet_cons.mpr ⟨hhere, hunmet⟩⟩
        · rintro ⟨heq, hrun, hunmet⟩
          cases body with
          | nil =>
              obtain ⟨rfl, -⟩ := List.cons.inj heq
              exact absurd ⟨rfl, hrun⟩ hhere
          | cons d body =>
              obtain ⟨rfl, rfl⟩ := List.cons.inj heq
              have hinner := (ih (hp.step c)).mpr ⟨rfl, hrun, (unmet_cons.mp hunmet).2⟩
              exact ⟨(body, tail), hinner, rfl⟩

/-- The start is outside quotes and parentheses. -/
theorem eq_start_iff {p : Position} : p = start ↔ p.quotes = .outside ∧ p.depth = 0 := by
  constructor
  · rintro rfl
    exact ⟨rfl, rfl⟩
  · obtain ⟨quotes, depth⟩ := p
    rintro ⟨hquotes, hdepth⟩
    replace hquotes : quotes = .outside := hquotes
    replace hdepth : depth = 0 := hdepth
    rw [hquotes, hdepth]
    rfl

/-- A character counts only outside quotes. -/
theorem Position.Proper.outside_of_structural {p : Position} (hp : p.Proper) {c : Char}
    (h : p.quotes.structural c = true) : p.quotes = .outside := by
  rcases hp with houtside | ⟨q, escaped, -, hquoted⟩
  · exact houtside
  · rw [hquoted] at h
    cases h

/-- **What the scan knows about nested texts**: it stands where it started behind them, and in
front of none of their closing parentheses. -/
theorem nested_iff {cs : List Char} : Nested cs ↔ start.run cs = start ∧ Unmet ')' start cs := by
  have hdepth : ∀ text, (start.run text).depth = (outerFrom .outside text).foldl depthStep 0 :=
    depth_run start
  constructor
  · rintro ⟨outer, houter, hcount, hcovered⟩
    obtain ⟨hquotes, rfl⟩ := unquoted_iff.mp houter
    constructor
    · have hopen := hcovered.depth_add
      rw [eq_start_iff, hdepth]
      exact ⟨hquotes, by omega⟩
    · rintro u w rfl hstart
      have hsplit := outerFrom_append start u (')' :: w)
      rw [hstart] at hsplit
      refine covered_iff.mp hcovered _ _ hsplit ?_
      exact (hdepth u).symm.trans (eq_start_iff.mp hstart).2
  · rintro ⟨hrun, hunmet⟩
    obtain ⟨hquotes, hzero⟩ := eq_start_iff.mp hrun
    have hcovered : Covered (outerFrom .outside cs) := by
      rw [covered_iff]
      intro f g houter hclosed
      obtain ⟨u, w, rfl, rfl, hstructural⟩ := @exists_of_outerFrom start _ _ _ _ houter
      have houtside := (proper_start.run u).outside_of_structural hstructural
      exact hunmet u w rfl (eq_start_iff.mpr ⟨houtside, (hdepth u).trans hclosed⟩)
    refine ⟨_, unquoted_iff.mpr ⟨hquotes, rfl⟩, ?_, hcovered⟩
    have hopen := hcovered.depth_add
    rw [hdepth] at hzero
    omega

/-- A body is the nested text in front of a closing parenthesis. -/
theorem closingParen_eq_some_iff {cs body tail : List Char} :
    closingParen cs = some (body, tail) ↔ cs = body ++ ')' :: tail ∧ Nested body := by
  rw [nested_iff]
  exact closingParenFrom_eq_some_iff proper_start

/-! ## The parts of a nested text -/

/-- A text inside a nested one is nested itself if the scan stands at its start in front of it and
behind it. -/
theorem Nested.middle {front cs back : List Char} (h : Nested (front ++ cs ++ back))
    (hfront : start.run front = start) (hcs : start.run cs = start) : Nested cs := by
  rw [nested_iff] at h ⊢
  refine ⟨hcs, ?_⟩
  rintro u w rfl hmet
  refine h.2 (front ++ u) (w ++ back) (by simp) ?_
  rw [run_append, hfront, hmet]

/-- Between the commas of a nested text at depth zero lie nested texts. -/
theorem Cut.nested {parts : List (List Char)} (hcut : Cut start parts)
    (h : Nested (join [','] parts)) : ∀ part ∈ parts, Nested part := by
  induction parts with
  | nil => exact absurd rfl hcut.ne_nil
  | cons piece more ih =>
      intro part hpart
      cases hcut with
      | last _ =>
          rw [List.mem_singleton.mp hpart]
          exact h
      | cons _ hstart hmore =>
          rw [join_cons hmore.ne_nil] at h
          have hcomma : start.run (piece ++ [',']) = start := by
            rw [run_append, hstart]
            rfl
          rcases List.mem_cons.mp hpart with rfl | hpart
          · have hpiece : Nested ([] ++ part ++ ([','] ++ join [','] more)) := by
              rwa [List.nil_append, ← List.append_assoc]
            exact hpiece.middle rfl hstart
          · refine ih hmore ?_ part hpart
            have hrun := (nested_iff.mp h).1
            rw [run_append, hcomma] at hrun
            rw [← List.append_nil (_ ++ join [','] more)] at h
            exact h.middle hcomma hrun

/-- Blanks are not part of the nesting. -/
theorem Nested.trim {cs : List Char} (h : Nested cs) : Nested (trim cs) := by
  obtain ⟨lead, tail, heq, hlead, -⟩ := exists_trim cs
  have hrun := run_trim (nested_iff.mp h).1
  rw [heq] at h
  exact h.middle (run_blank hlead 0) hrun

/-- **The parts of a nested body are nested.** -/
theorem nested_of_mem_splitTopLevel {body part : List Char} (h : Nested body)
    (hpart : part ∈ splitTopLevel body) : Nested part := by
  obtain ⟨hmem, -⟩ := List.mem_filter.mp hpart
  obtain ⟨piece, hpiece, rfl⟩ := List.mem_map.mp hmem
  obtain ⟨hjoin, hcut⟩ := cut_piecesFrom proper_start body
  change join [','] (pieces body) = body at hjoin
  rw [← hjoin] at h
  exact (Cut.nested hcut h piece hpiece).trim

/-! ## Byte offsets -/

/-- The text behind a byte offset, if that is the boundary of a character. -/
def sliceFrom? (offset : Nat) : List Char → Option (List Char)
  | [] => if offset = 0 then some [] else none
  | c :: cs =>
    if offset = 0 then some (c :: cs)
    else if offset < c.utf8Size then none
    else sliceFrom? (offset - c.utf8Size) cs

/-- Bytes add up. -/
theorem byteSize_append (u w : List Char) : byteSize (u ++ w) = byteSize u + byteSize w := by
  induction u with
  | nil => exact (Nat.zero_add _).symm
  | cons c u ih => rw [List.cons_append, byteSize_cons, byteSize_cons, ih, Nat.add_assoc]

/-- The slice behind the bytes of a front is the rest. -/
theorem sliceFrom?_append (u w : List Char) : sliceFrom? (byteSize u) (u ++ w) = some w := by
  induction u with
  | nil => cases w <;> simp [byteSize, sliceFrom?]
  | cons c u ih =>
      have hpos := c.utf8Size_pos
      rw [byteSize_cons, List.cons_append, sliceFrom?, if_neg (by omega), if_neg (by omega),
        Nat.add_sub_cancel_left, ih]

/-- The byte offset of the parenthesis that closes a body, among characters with their offsets. -/
def closingOffsetFrom? (p : Position) : List (Nat × Char) → Option Nat
  | [] => none
  | (offset, c) :: rest =>
    if p.quotes.structural c && c = ')' && p.depth = 0 then some offset
    else closingOffsetFrom? (p.step c) rest

/-- The byte offset of the parenthesis that closes a body whose opening parenthesis was read. -/
def closingOffset? (cs : List Char) : Option Nat := closingOffsetFrom? start (offsetsFrom 0 cs)

/-- The offset of the closing parenthesis is the size of the body in front of it. -/
theorem closingOffset?_eq (cs : List Char) :
    closingOffset? cs = (closingParen cs).map fun parts => byteSize parts.1 := by
  have hfrom : ∀ (p : Position) (offset : Nat), closingOffsetFrom? p (offsetsFrom offset cs)
      = (closingParenFrom p.quotes p.depth cs).map fun parts => offset + byteSize parts.1 := by
    induction cs with
    | nil => exact fun _ _ => rfl
    | cons c cs ih =>
        intro p offset
        rw [offsetsFrom, closingOffsetFrom?, closingParenFrom_step, ih]
        split
        · rfl
        · simp [Function.comp_def, withFront, byteSize_cons, Nat.add_assoc]
  have hstart := hfrom start 0
  simp only [Nat.zero_add] at hstart
  exact hstart

/-- **The scan finds the parenthesis that closes a body.**  Its byte offset is the one of a closing
parenthesis behind a nested text, of which there is at most one; there is none exactly if no nested
text stands in front of a closing parenthesis.  The offset, the one behind it and that of the end
of the statement are boundaries of characters, and cut out the body, the text behind it and the
options.  The parts of the body are nested. -/
theorem closingParen_encloses (cs : List Char) :
    (∀ offset, closingOffset? cs = some offset ↔
      ∃ body tail, cs = body ++ ')' :: tail ∧ byteSize body = offset ∧ Nested body) ∧
    (closingOffset? cs = none ↔ ∀ body tail, cs = body ++ ')' :: tail → ¬Nested body) ∧
    (∀ body tail body' tail', cs = body ++ ')' :: tail → Nested body →
      cs = body' ++ ')' :: tail' → Nested body' → body = body' ∧ tail = tail') ∧
    ∀ body tail, closingParen cs = some (body, tail) →
      closingOffset? cs = some (byteSize body) ∧
      sliceTo? (byteSize body) cs = some body ∧ sliceFrom? (byteSize body + 1) cs = some tail ∧
      sliceTo? (byteSize (statementEnd tail)) tail = some (statementEnd tail) ∧
      ∀ part ∈ splitTopLevel body, Nested part := by
  refine ⟨?_, ?_, ?_, ?_⟩
  · intro offset
    rw [closingOffset?_eq, Option.map_eq_some_iff]
    constructor
    · rintro ⟨⟨body, tail⟩, hfound, hsize⟩
      obtain ⟨hsplit, hnested⟩ := closingParen_eq_some_iff.mp hfound
      exact ⟨body, tail, hsplit, hsize, hnested⟩
    · rintro ⟨body, tail, hsplit, hsize, hnested⟩
      exact ⟨(body, tail), closingParen_eq_some_iff.mpr ⟨hsplit, hnested⟩, hsize⟩
  · rw [closingOffset?_eq, Option.map_eq_none_iff, Option.eq_none_iff_forall_ne_some]
    constructor
    · intro h body tail hsplit hnested
      exact h (body, tail) (closingParen_eq_some_iff.mpr ⟨hsplit, hnested⟩)
    · rintro h ⟨body, tail⟩ hfound
      obtain ⟨hsplit, hnested⟩ := closingParen_eq_some_iff.mp hfound
      exact h body tail hsplit hnested
  · intro body tail body' tail' hsplit hnested hsplit' hnested'
    have hfound := closingParen_eq_some_iff.mpr ⟨hsplit, hnested⟩
    have hfound' := closingParen_eq_some_iff.mpr ⟨hsplit', hnested'⟩
    exact Prod.mk.inj (Option.some.inj (hfound.symm.trans hfound'))
  · intro body tail hfound
    obtain ⟨hsplit, hnested⟩ := closingParen_eq_some_iff.mp hfound
    have hbehind : cs = (body ++ [')']) ++ tail := by rw [hsplit]; simp
    have hsize : byteSize (body ++ [')']) = byteSize body + 1 := byteSize_append body [')']
    obtain ⟨rest, hrest⟩ := statementEnd_append tail
    refine ⟨?_, ?_, ?_, ?_, fun part => nested_of_mem_splitTopLevel hnested⟩
    · rw [closingOffset?_eq, hfound]
      rfl
    · rw [hsplit]
      exact sliceTo?_append body (')' :: tail)
    · rw [hbehind, ← hsize]
      exact sliceFrom?_append _ _
    · have hslice := sliceTo?_append (statementEnd tail) rest
      rwa [← hrest] at hslice

/-- A body with a parenthesis in a literal and one in a type. -/
def quotedText : List Char := "é char DEFAULT ')', n int(1)) ENGINE".toList

/-- A parenthesis in quotes closes nothing, and a character of two bytes counts as two. -/
theorem closingParen_encloses_quoted :
    closingParen quotedText = some ("é char DEFAULT ')', n int(1)".toList, " ENGINE".toList) ∧
      closingOffset? quotedText = some 29 ∧ Nested "n int(1)".toList := by
  have hfound : closingParen quotedText
      = some ("é char DEFAULT ')', n int(1)".toList, " ENGINE".toList) := by decide
  obtain ⟨hoffset, -, -, -, hparts⟩ := (closingParen_encloses quotedText).2.2.2 _ _ hfound
  exact ⟨hfound, hoffset, hparts _ (by decide)⟩

end CodeIndex.Sql
