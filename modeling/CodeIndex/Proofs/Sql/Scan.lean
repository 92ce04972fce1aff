import CodeIndex.Proofs.Sql.Piece

/-!
# Text that closes what it opens

The scans for the end of a body, for the end of a statement and for the commas of a body share
one state: the quote they are in and the depth of parentheses.  A text that closes its quotes
and its parentheses leaves that state as it was, so each scan passes over it as if it were one
character.  `Balanced` describes such texts by their structure, with or without commas outside
parentheses.

* `closingParenFrom_balanced` : the search for the closing parenthesis passes over it.
* `piecesFrom_balanced` : the cut at commas passes over it.
* `statementEndFrom_plain`, `statementEndFrom_quoted` : what the search for the semicolon
  passes over.
* `splitTopLevel_join` : parts that are joined with commas are cut where they were joined.
-/

namespace CodeIndex.Sql

open Text

/-- Is `c` one of the quotes? -/
def isQuote (c : Char) : Bool := c = '\'' || c = '"' || c = '\x60'

/-- A character of a class that holds no quote and no parenthesis is neither. -/
theorem plain_of_class {p : Char → Bool}
    (hp : ∀ d ∈ ['\'', '"', '\x60', '(', ')'], p d = false) {c : Char} (hc : p c = true) :
    isQuote c = false ∧ c ≠ '(' ∧ c ≠ ')' := by
  have hne : ∀ d ∈ ['\'', '"', '\x60', '(', ')'], c ≠ d := by
    rintro d hd rfl
    rw [hp c hd] at hc
    cases hc
  refine ⟨?_, hne _ (by decide), hne _ (by decide)⟩
  simp [isQuote, hne '\'' (by decide), hne '"' (by decide), hne '\x60' (by decide)]

/-- A text in which every quote and every parenthesis is closed again.  `commas` says whether
commas may stand outside parentheses. -/
inductive Balanced : Bool → List Char → Prop
  | nil {commas : Bool} : Balanced commas []
  | plain {commas : Bool} {c : Char} {rest : List Char} (hquote : isQuote c = false)
      (hopen : c ≠ '(') (hclose : c ≠ ')') (hcomma : c = ',' → commas = true)
      (tail : Balanced commas rest) : Balanced commas (c :: rest)
  | quoted {commas : Bool} {q : Char} {body rest : List Char} (hquote : isQuote q = true)
      (hbody : ∀ c ∈ body, c ≠ q ∧ c ≠ '\\') (tail : Balanced commas rest) :
      Balanced commas (q :: (body ++ q :: rest))
  | paren {commas : Bool} {inner rest : List Char} (hinner : Balanced true inner)
      (tail : Balanced commas rest) : Balanced commas ('(' :: (inner ++ ')' :: rest))

namespace Balanced

/-- Balanced texts one after the other are balanced. -/
theorem append {commas : Bool} {u w : List Char} (hu : Balanced commas u)
    (hw : Balanced commas w) : Balanced commas (u ++ w) := by
  induction hu with
  | nil => exact hw
  | plain hquote hopen hclose hcomma _ ih => exact .plain hquote hopen hclose hcomma (ih hw)
  | quoted hquote hbody _ ih =>
      rw [List.cons_append, List.append_assoc, List.cons_append]
      exact .quoted hquote hbody (ih hw)
  | paren hinner _ _ ih =>
      rw [List.cons_append, List.append_assoc, List.cons_append]
      exact .paren hinner (ih hw)

/-- A text without commas is one that might have them. -/
theorem weaken {commas : Bool} {w : List Char} (h : Balanced commas w) : Balanced true w := by
  induction h with
  | nil => exact .nil
  | plain hquote hopen hclose _ _ ih => exact .plain hquote hopen hclose (fun _ => rfl) ih
  | quoted hquote hbody _ ih => exact .quoted hquote hbody ih
  | paren hinner _ _ ih => exact .paren hinner ih

end Balanced

namespace QuoteState

/-- Inside a quote. -/
def inside (q : Char) : QuoteState := ⟨some q, false⟩

/-- A character that is no quote keeps the scan outside. -/
theorem step_plain {c : Char} (h : isQuote c = false) : outside.step c = outside := by
  unfold isQuote at h
  simp [outside, step, h]

/-- A character that is no quote counts when it stands outside. -/
theorem structural_plain {c : Char} (h : isQuote c = false) : outside.structural c = true := by
  unfold isQuote at h
  simp [outside, structural, h]

/-- A quote takes the scan inside. -/
theorem step_quote {q : Char} (h : isQuote q = true) : outside.step q = inside q := by
  unfold isQuote at h
  simp [outside, inside, step, h]

/-- A quote does not count. -/
theorem structural_quote {q : Char} (h : isQuote q = true) : outside.structural q = false := by
  unfold isQuote at h
  simp [outside, structural, h]

/-- Inside a quote nothing counts. -/
theorem structural_inside (q c : Char) : (inside q).structural c = false := rfl

/-- A character that neither closes nor escapes keeps the scan inside. -/
theorem step_inside {q c : Char} (hc : c ≠ q ∧ c ≠ '\\') : (inside q).step c = inside q := by
  simp [inside, step, hc.1, hc.2]

/-- The same quote takes the scan outside again. -/
theorem step_close {q : Char} (h : isQuote q = true) : (inside q).step q = outside := by
  have hq : q ≠ '\\' := by
    rintro rfl
    exact absurd h (by decide)
  simp [inside, step, hq]

end QuoteState

open QuoteState

/-- The search for the closing parenthesis passes over the rest of a quoted text. -/
theorem closingParenFrom_inside {q : Char} (hq : isQuote q = true) {body : List Char}
    (hbody : ∀ c ∈ body, c ≠ q ∧ c ≠ '\\') (depth : Nat) (rest : List Char) :
    closingParenFrom (inside q) depth (body ++ q :: rest)
      = (closingParenFrom .outside depth rest).map fun (b, t) => (body ++ q :: b, t) := by
  induction body with
  | nil => simp [closingParenFrom, structural_inside, step_close hq]
  | cons c body ih =>
      have hc := hbody c List.mem_cons_self
      have hrest := ih fun d hd => hbody d (List.mem_cons_of_mem _ hd)
      simp [closingParenFrom, structural_inside, step_inside hc, hrest, Function.comp_def]

/-- The search for the closing parenthesis passes over a balanced text. -/
theorem closingParenFrom_balanced {commas : Bool} {w : List Char} (h : Balanced commas w)
    (depth : Nat) (rest : List Char) :
    closingParenFrom .outside depth (w ++ rest)
      = (closingParenFrom .outside depth rest).map fun (b, t) => (w ++ b, t) := by
  induction h generalizing depth rest with
  | nil => simp
  | @plain commas c w hquote hopen hclose _ _ ih =>
      simp [closingParenFrom, structural_plain hquote, step_plain hquote, hopen, hclose, ih,
        Function.comp_def]
  | @quoted commas q body w hquote hbody _ ih =>
      have hinside := closingParenFrom_inside hquote hbody depth (w ++ rest)
      simp [closingParenFrom, structural_quote hquote, step_quote hquote, hinside, ih,
        Function.comp_def]
  | @paren commas inner w _ _ ihInner ih =>
      have hopen : isQuote '(' = false := rfl
      have hclose : isQuote ')' = false := rfl
      have hinner := ihInner (depth + 1) (')' :: (w ++ rest))
      simp [closingParenFrom, structural_plain hopen, step_plain hopen, structural_plain hclose,
        step_plain hclose, hinner, ih, Function.comp_def]

/-- The body of a definition is the balanced text up to its closing parenthesis. -/
theorem closingParen_balanced {commas : Bool} {body : List Char} (h : Balanced commas body)
    (tail : List Char) : closingParen (body ++ ')' :: tail) = some (body, tail) := by
  have hclose : isQuote ')' = false := rfl
  rw [closingParen, closingParenFrom_balanced h]
  simp [closingParenFrom, structural_plain hclose]

/-- There is always a piece. -/
theorem piecesFrom_ne_nil (s : QuoteState) (depth : Nat) (cs : List Char) :
    piecesFrom s depth cs ≠ [] := by
  cases cs with
  | nil => simp [piecesFrom]
  | cons c cs =>
      simp only [piecesFrom]
      split
      · simp
      · split <;> simp

/-- A character at which no cut is made goes in front of the first piece behind it. -/
theorem piecesFrom_cons {s : QuoteState} {depth : Nat} {c : Char} (rest : List Char)
    (h : (s.structural c && c = ',' && depth = 0) = false) :
    piecesFrom s depth (c :: rest) = (piecesFrom (s.step c)
      (if s.structural c && c = '(' then depth + 1
        else if s.structural c && c = ')' then depth - 1 else depth) rest).modifyHead (c :: ·) := by
  simp only [piecesFrom, h]
  rw [if_neg (by simp)]
  split
  · rename_i heq
    exact absurd heq (piecesFrom_ne_nil _ _ _)
  · rename_i heq
    rw [heq]
    rfl

/-- The cut at commas passes over the rest of a quoted text. -/
theorem piecesFrom_inside {q : Char} (hq : isQuote q = true) {body : List Char}
    (hbody : ∀ c ∈ body, c ≠ q ∧ c ≠ '\\') (depth : Nat) (rest : List Char) :
    piecesFrom (inside q) depth (body ++ q :: rest)
      = (piecesFrom .outside depth rest).modifyHead (body ++ q :: ·) := by
  induction body with
  | nil =>
      rw [List.nil_append, piecesFrom_cons _ (by simp [structural_inside]), step_close hq]
      simp [structural_inside]
  | cons c body ih =>
      have hc := hbody c List.mem_cons_self
      have hrest := ih fun d hd => hbody d (List.mem_cons_of_mem _ hd)
      rw [List.cons_append, piecesFrom_cons _ (by simp [structural_inside]), step_inside hc]
      simp only [structural_inside, Bool.false_and, Bool.false_eq_true, if_false]
      rw [hrest, List.modifyHead_modifyHead]
      rfl

/-- The cut at commas passes over a balanced text, if its commas stand in parentheses. -/
theorem piecesFrom_balanced {commas : Bool} {w : List Char} (h : Balanced commas w)
    {depth : Nat} (hdepth : commas = true → depth ≠ 0) (rest : List Char) :
    piecesFrom .outside depth (w ++ rest)
      = (piecesFrom .outside depth rest).modifyHead (w ++ ·) := by
  induction h generalizing depth rest with
  | nil =>
      rw [List.nil_append]
      cases hpieces : piecesFrom outside depth rest <;> rfl
  | @plain commas c w hquote hopen hclose hcomma _ ih =>
      have hcut : (outside.structural c && c = ',' && depth = 0) = false := by
        by_cases hc : c = ','
        · simp [hdepth (hcomma hc)]
        · simp [hc]
      rw [List.cons_append, piecesFrom_cons _ hcut, step_plain hquote]
      simp only [hopen, hclose, decide_false, Bool.and_false, Bool.false_eq_true, if_false]
      rw [ih hdepth, List.modifyHead_modifyHead]
      rfl
  | @quoted commas q body w hquote hbody _ ih =>
      have hcut : (outside.structural q && q = ',' && depth = 0) = false := by
        simp [structural_quote hquote]
      rw [List.cons_append, List.append_assoc, List.cons_append, piecesFrom_cons _ hcut,
        step_quote hquote]
      simp only [structural_quote hquote, Bool.false_and, Bool.false_eq_true, if_false]
      rw [piecesFrom_inside hquote hbody, ih hdepth, List.modifyHead_modifyHead,
        List.modifyHead_modifyHead]
      simp [Function.comp_def]
  | @paren commas inner w _ _ ihInner ih =>
      have hopen : isQuote '(' = false := rfl
      have hclose : isQuote ')' = false := rfl
      have hback : piecesFrom outside (depth + 1) (')' :: (w ++ rest))
          = (piecesFrom outside depth (w ++ rest)).modifyHead (')' :: ·) := by
        rw [piecesFrom_cons _ (by simp), step_plain hclose, structural_plain hclose]
        simp
      rw [List.cons_append, List.append_assoc, List.cons_append, piecesFrom_cons _ (by simp),
        step_plain hopen, structural_plain hopen]
      simp only [decide_true, Bool.and_true, if_true]
      rw [ihInner (by simp), hback, ih hdepth, List.modifyHead_modifyHead,
        List.modifyHead_modifyHead, List.modifyHead_modifyHead]
      simp [Function.comp_def]

/-- A comma behind a balanced text ends its piece. -/
theorem pieces_append_comma {w : List Char} (h : Balanced false w) (rest : List Char) :
    pieces (w ++ ',' :: rest) = w :: pieces rest := by
  have hcut : piecesFrom outside 0 (',' :: rest) = [] :: piecesFrom outside 0 rest := rfl
  rw [pieces, piecesFrom_balanced h (by simp), hcut]
  simp [pieces]

/-- A balanced text without commas is one piece. -/
theorem pieces_balanced {w : List Char} (h : Balanced false w) : pieces w = [w] := by
  have hpieces : pieces (w ++ []) = _ := piecesFrom_balanced h (by simp) []
  rw [List.append_nil] at hpieces
  rw [hpieces]
  simp [piecesFrom]

/-- Blanks are balanced. -/
theorem balanced_of_blank {commas : Bool} {gap : List Char}
    (h : ∀ c ∈ gap, isBlank c = true) : Balanced commas gap := by
  induction gap with
  | nil => exact .nil
  | cons c gap ih =>
      have hblank := h c List.mem_cons_self
      have hne : ∀ d, isBlank d = false → c ≠ d := by
        rintro d hd rfl
        rw [hblank] at hd
        cases hd
      refine .plain ?_ (hne _ (by decide)) (hne _ (by decide))
        (fun hc => absurd hc (hne _ (by decide))) (ih fun d hd => h d (List.mem_cons_of_mem _ hd))
      simp [isQuote, hne '\'' (by decide), hne '"' (by decide), hne '\x60' (by decide)]

/-- Balanced parts that are joined with commas are balanced. -/
theorem balanced_join {gap : List Char} (hgap : ∀ c ∈ gap, isBlank c = true)
    {parts : List (List Char)} (hparts : ∀ part ∈ parts, Balanced true part) :
    Balanced true (join (',' :: gap) parts) := by
  induction parts with
  | nil => exact .nil
  | cons part parts ih =>
      have hpart := hparts part List.mem_cons_self
      have hrest := ih fun p hp => hparts p (List.mem_cons_of_mem _ hp)
      cases parts with
      | nil => exact hpart
      | cons next parts =>
          have hcomma : Balanced true (',' :: gap) :=
            .plain rfl (by decide) (by decide) (fun _ => rfl) (balanced_of_blank hgap)
          exact (hpart.append hcomma).append hrest

/-- Something without blanks at its ends. -/
structure Trimmed (cs : List Char) : Prop where
  ne_nil : cs ≠ []
  head : ∀ c, cs.head? = some c → isBlank c = false
  last : ∀ c, cs.getLast? = some c → isBlank c = false

/-- Blanks have no parts. -/
theorem splitTopLevel_blank {w : List Char} (h : ∀ c ∈ w, isBlank c = true) :
    splitTopLevel w = [] := by
  have htrim : trim w = [] := by
    rw [trim, trimStart_of_blank h]
    rfl
  simp [splitTopLevel, pieces_balanced (balanced_of_blank h), htrim]

/-- A balanced text is one part. -/
theorem splitTopLevel_balanced {w part : List Char} (h : Balanced false w)
    (htrim : trim w = part) (hne : part ≠ []) : splitTopLevel w = [part] := by
  simp [splitTopLevel, pieces_balanced h, htrim, hne]

/-- A balanced text before a comma is the first part. -/
theorem splitTopLevel_append_comma {w part : List Char} (h : Balanced false w)
    (htrim : trim w = part) (hne : part ≠ []) (rest : List Char) :
    splitTopLevel (w ++ ',' :: rest) = part :: splitTopLevel rest := by
  simp [splitTopLevel, pieces_append_comma h, htrim, hne]

/-- **Parts are cut where they were joined.**  Balanced parts without blanks at their ends,
with a comma and blanks between them and blanks around them, are the parts of the body. -/
theorem splitTopLevel_join {gap tail : List Char} (hgap : ∀ c ∈ gap, isBlank c = true)
    (htail : ∀ c ∈ tail, isBlank c = true) {parts : List (List Char)}
    (hparts : ∀ part ∈ parts, Balanced false part ∧ Trimmed part) {lead : List Char}
    (hlead : ∀ c ∈ lead, isBlank c = true) :
    splitTopLevel (lead ++ join (',' :: gap) parts ++ tail) = parts := by
  induction parts generalizing lead with
  | nil =>
      apply splitTopLevel_blank
      intro c hc
      rw [join, List.append_nil, List.mem_append] at hc
      exact hc.elim (hlead c) (htail c)
  | cons part parts ih =>
      obtain ⟨hbalanced, htrimmed⟩ := hparts part List.mem_cons_self
      have hrest := ih (fun p hp => hparts p (List.mem_cons_of_mem _ hp)) hgap
      have hlead' : Balanced false (lead ++ part) := (balanced_of_blank hlead).append hbalanced
      cases parts with
      | nil =>
          exact splitTopLevel_balanced (hlead'.append (balanced_of_blank htail))
            (trim_append_blank hlead htrimmed.head htrimmed.last htail) htrimmed.ne_nil
      | cons next parts =>
          have htext : lead ++ join (',' :: gap) (part :: next :: parts) ++ tail
              = (lead ++ part) ++ ',' :: (gap ++ join (',' :: gap) (next :: parts) ++ tail) := by
            simp [join]
          have htrim : trim (lead ++ part) = part := by
            have hempty : ∀ c ∈ ([] : List Char), isBlank c = true := by simp
            simpa using trim_append_blank hlead htrimmed.head htrimmed.last hempty
          rw [htext, splitTopLevel_append_comma hlead' htrim htrimmed.ne_nil, hrest]

/-- The search for the semicolon passes over the rest of a quoted text. -/
theorem statementEndFrom_inside {q : Char} (hq : isQuote q = true) {body : List Char}
    (hbody : ∀ c ∈ body, c ≠ q ∧ c ≠ '\\') (rest : List Char) :
    statementEndFrom (inside q) (body ++ q :: rest)
      = body ++ q :: statementEndFrom .outside rest := by
  induction body with
  | nil => simp [statementEndFrom, structural_inside, step_close hq]
  | cons c body ih =>
      have hc := hbody c List.mem_cons_self
      have hrest := ih fun d hd => hbody d (List.mem_cons_of_mem _ hd)
      simp [statementEndFrom, structural_inside, step_inside hc, hrest]

/-- The search for the semicolon passes over a text without quotes and semicolons. -/
theorem statementEndFrom_plain {w : List Char}
    (h : ∀ c ∈ w, isQuote c = false ∧ c ≠ ';') (rest : List Char) :
    statementEndFrom .outside (w ++ rest) = w ++ statementEndFrom .outside rest := by
  induction w with
  | nil => rfl
  | cons c w ih =>
      obtain ⟨hquote, hsemi⟩ := h c List.mem_cons_self
      have hrest := ih fun d hd => h d (List.mem_cons_of_mem _ hd)
      simp [statementEndFrom, step_plain hquote, hsemi, hrest]

/-- The search for the semicolon passes over a quoted text. -/
theorem statementEndFrom_quoted {q : Char} (hq : isQuote q = true) {body : List Char}
    (hbody : ∀ c ∈ body, c ≠ q ∧ c ≠ '\\') (rest : List Char) :
    statementEndFrom .outside (q :: (body ++ q :: rest))
      = q :: (body ++ q :: statementEndFrom .outside rest) := by
  simp [statementEndFrom, structural_quote hq, step_quote hq, statementEndFrom_inside hq hbody]

end CodeIndex.Sql
