import CodeIndex.Proofs.Sql.CommentStep
import CodeIndex.Proofs.Sql.Reading

/-!
# Scripts with holes in their literals

Two scripts that differ only inside quoted literals are one script with a hole in each literal,
filled in two ways.  Comments, headers and statements are looked for without regard to quotes, so
a text that goes into a hole must not look like one of them itself: `Opaque` says what that means.
Under that condition everything up to the cut into segments can be done on the script with holes,
and the filling comes after.

* `dropBlocksFrom_fill`, `dropLinesFrom_fill` : the removal of comments.
* `segments_fill` : the cut at headers.
-/

namespace CodeIndex.Sql

open Text

variable {ι : Type}

/-- A character, or a literal in its quotes whose text is left open. -/
inductive Item (ι : Type) where
  | char (c : Char)
  | literal (quote : Char) (hole : ι)
  deriving DecidableEq

/-- What an item is written as when the holes are filled. -/
def Item.text (f : ι → List Char) : Item ι → List Char
  | .char c => [c]
  | .literal q i => q :: f i ++ [q]

/-- The text of a script when its holes are filled. -/
def fill (f : ι → List Char) : List (Item ι) → List Char
  | [] => []
  | item :: rest => item.text f ++ fill f rest

/-- The text of a script when its literals are left empty. -/
def bare (items : List (Item ι)) : List Char := fill (fun _ => []) items

/-- The characters in front of the first literal. -/
def front : List (Item ι) → List Char
  | .char c :: rest => c :: front rest
  | _ => []

/-- The first literal and what follows it. -/
def rear : List (Item ι) → List (Item ι)
  | .char _ :: rest => rear rest
  | items => items

/-- The text is well escaped for a literal in the quotes `q`: each backslash takes a character
with it, and each quote is doubled. -/
inductive Escaped (q : Char) : List Char → Prop
  | nil : Escaped q []
  | plain {c : Char} {body : List Char} (hquote : c ≠ q) (hslash : c ≠ '\\')
      (h : Escaped q body) : Escaped q (c :: body)
  | slash {c : Char} {body : List Char} (h : Escaped q body) : Escaped q ('\\' :: c :: body)
  | doubled {body : List Char} (h : Escaped q body) : Escaped q (q :: q :: body)

/-- Is the text well escaped? -/
def isEscaped (q : Char) : List Char → Bool
  | [] => true
  | [c] => c ≠ q && c ≠ '\\'
  | c :: d :: rest =>
    if c = '\\' then isEscaped q rest
    else if c = q then d = q && isEscaped q rest
    else isEscaped q (d :: rest)

/-- The test for escaped texts is the relation. -/
theorem isEscaped_iff {q : Char} {body : List Char} : isEscaped q body = true ↔ Escaped q body := by
  constructor
  · intro h
    fun_induction isEscaped q body with
    | case1 => exact .nil
    | case2 c =>
        have hc : c ≠ q ∧ c ≠ '\\' := by simpa using h
        exact .plain hc.1 hc.2 .nil
    | case3 d rest ih => exact .slash (ih h)
    | case4 d rest hslash ih =>
        have hd : d = q ∧ isEscaped q rest = true := by simpa using h
        rw [hd.1]
        exact .doubled (ih hd.2)
    | case5 c d rest hslash hquote ih => exact .plain hquote hslash (ih h)
  · intro h
    induction h with
    | nil => rfl
    | @plain c body hquote hslash h ih =>
        cases body with
        | nil => simp [isEscaped, hquote, hslash]
        | cons d body => simpa [isEscaped, hquote, hslash] using ih
    | slash h ih => simpa [isEscaped] using ih
    | doubled h ih => simpa [isEscaped] using ih

instance (q : Char) (body : List Char) : Decidable (Escaped q body) :=
  decidable_of_iff _ isEscaped_iff

/-- Does a line comment open behind a line break of the text? -/
def breaksIntoComment : List Char → Bool
  | [] => false
  | c :: rest => (c == '\n' && opensLineComment rest) || breaksIntoComment rest

/-- A text that may stand between the quotes `q` and does not look like structure: it holds no
mark of a block comment, no line that is a comment, and no header of a statement. -/
structure Opaque (q : Char) (body : List Char) : Prop where
  quote : q = '\'' ∨ q = '"'
  escaped : Escaped q body
  noOpen : contains ['/', '*'] body = false
  noClose : contains ['*', '/'] body = false
  noLine : breaksIntoComment body = false
  noHeader : (segmentsFrom (some q) body).2 = []

instance (q : Char) (body : List Char) : Decidable (Opaque q body) :=
  decidable_of_iff ((q = '\'' ∨ q = '"') ∧ Escaped q body ∧ contains ['/', '*'] body = false ∧
      contains ['*', '/'] body = false ∧ breaksIntoComment body = false ∧
      (segmentsFrom (some q) body).2 = [])
    ⟨fun ⟨quote, escaped, noOpen, noClose, noLine, noHeader⟩ =>
      ⟨quote, escaped, noOpen, noClose, noLine, noHeader⟩,
    fun h => ⟨h.quote, h.escaped, h.noOpen, h.noClose, h.noLine, h.noHeader⟩⟩

/-- A literal is filled with an opaque text. -/
def Item.Fits (f : ι → List Char) : Item ι → Prop
  | .char _ => True
  | .literal q i => Opaque q (f i)

instance (f : ι → List Char) : DecidablePred (Item.Fits f)
  | .char _ => instDecidableTrue
  | .literal q i => inferInstanceAs (Decidable (Opaque q (f i)))

/-- Every literal of the script is filled with an opaque text. -/
def Fits (f : ι → List Char) (items : List (Item ι)) : Prop := ∀ item ∈ items, item.Fits f

instance (f : ι → List Char) (items : List (Item ι)) : Decidable (Fits f items) :=
  inferInstanceAs (Decidable (∀ item ∈ items, item.Fits f))

section Fill

variable {f : ι → List Char}

@[simp] theorem fill_nil : fill f [] = [] := rfl

@[simp] theorem fill_char (c : Char) (rest : List (Item ι)) :
    fill f (.char c :: rest) = c :: fill f rest := rfl

@[simp] theorem fill_literal (q : Char) (i : ι) (rest : List (Item ι)) :
    fill f (.literal q i :: rest) = q :: (f i ++ q :: fill f rest) := by
  simp [fill, Item.text]

/-- Items that fit do so without the first. -/
theorem Fits.cons {item : Item ι} {rest : List (Item ι)} (h : Fits f (item :: rest)) :
    Fits f rest := fun other hmem => h other (List.mem_cons_of_mem _ hmem)

/-- The literal in front is opaque. -/
theorem Fits.literal {q : Char} {i : ι} {rest : List (Item ι)}
    (h : Fits f (.literal q i :: rest)) : Opaque q (f i) := h _ List.mem_cons_self

/-- Some of the items that fit do so. -/
theorem Fits.subset {items rest : List (Item ι)} (h : Fits f items) (hsub : rest ⊆ items) :
    Fits f rest := fun item hmem => h item (hsub hmem)

/-- A script is the characters in front of its first literal and what follows. -/
theorem fill_eq (items : List (Item ι)) : fill f items = front items ++ fill f (rear items) := by
  induction items with
  | nil => rfl
  | cons item rest ih =>
      cases item with
      | char c => rw [fill_char, ih]; rfl
      | literal q i => rfl

/-- What follows the characters in front is nothing, or starts with a quote. -/
theorem rear_cases (items : List (Item ι)) :
    rear items = [] ∨ ∃ q i rest, rear items = .literal q i :: rest := by
  induction items with
  | nil => exact .inl rfl
  | cons item rest ih =>
      cases item with
      | char c => exact ih
      | literal q i => exact .inr ⟨q, i, rest, rfl⟩

/-- The rear of a template are some of its items. -/
theorem rear_subset (items : List (Item ι)) : rear items ⊆ items := by
  induction items with
  | nil => exact fun _ h => h
  | cons item rest ih =>
      cases item with
      | char c => exact fun _ h => List.mem_cons_of_mem _ (ih h)
      | literal q i => exact fun _ h => h

end Fill

/-! ## Quotes of literals -/

/-- A character that is no part of a word, of blanks or of a comment mark, and no parenthesis. -/
structure IsMark (q : Char) : Prop where
  word : isWordChar q = false
  blank : isBlank q = false
  slash : q ≠ '/'
  star : q ≠ '*'
  dash : q ≠ '-'
  opens : q ≠ '('
  closes : q ≠ ')'

/-- The quotes of literals are marks. -/
theorem isMark_of_quote {q : Char} (h : q = '\'' ∨ q = '"') : IsMark q := by
  rcases h with rfl | rfl <;> constructor <;> decide

/-- The quote of an opaque text is a mark. -/
theorem Opaque.isMark {q : Char} {body : List Char} (h : Opaque q body) : IsMark q :=
  isMark_of_quote h.quote

/-- The first character does not depend on the literals. -/
theorem head?_fill (f g : ι → List Char) (items : List (Item ι)) :
    (fill f items).head? = (fill g items).head? := by
  cases items with
  | nil => rfl
  | cons item rest => cases item <;> simp

/-- A mark of two characters in a text with a quote inside is in front of the quote or behind. -/
theorem contains_append_quote {a b q : Char} (ha : q ≠ a) (hb : q ≠ b) (w rest : List Char) :
    contains [a, b] (w ++ q :: rest) = (contains [a, b] w || contains [a, b] rest) := by
  induction w with
  | nil =>
      have hstart : startsWith [a, b] (q :: rest) = false := by
        rw [startsWith_pair, beq_false_of_ne (Ne.symm ha)]
        rfl
      simp only [List.nil_append, contains, hstart, List.isEmpty_cons, Bool.false_or]
  | cons c w ih =>
      have hhead : (some b == (w ++ q :: rest).head?) = (some b == w.head?) := by
        cases w with
        | nil => simpa using Ne.symm hb
        | cons d w => rfl
      rw [List.cons_append, contains, contains, ih, startsWith_pair, startsWith_pair, hhead,
        Bool.or_assoc]

/-- A quote in front of a text makes no mark with it. -/
theorem contains_quote_cons {a b q : Char} (ha : q ≠ a) {w : List Char}
    (hw : contains [a, b] w = false) : contains [a, b] (q :: w) = false := by
  rw [contains, startsWith_pair, beq_false_of_ne (Ne.symm ha), hw]
  rfl

/-- Whether a block comment is closed does not depend on the literals. -/
theorem contains_fill {f : ι → List Char} {items : List (Item ι)} (h : Fits f items) :
    contains ['*', '/'] (fill f items) = contains ['*', '/'] (bare items) := by
  induction items with
  | nil => rfl
  | cons item rest ih =>
      have hrest := ih h.cons
      cases item with
      | char c =>
          rw [bare, fill_char, fill_char, contains, contains, startsWith_pair, startsWith_pair,
            head?_fill f (fun _ => [])]
          exact congrArg _ hrest
      | literal q i =>
          have hq := h.literal.isMark
          have hleft := contains_append_quote hq.star hq.slash (q :: f i) (fill f rest)
          have hright := contains_append_quote hq.star hq.slash [q] (bare rest)
          rw [contains_quote_cons hq.star h.literal.noClose] at hleft
          rw [contains_quote_cons hq.star rfl] at hright
          rw [bare, fill_literal, fill_literal]
          exact hleft.trans ((congrArg _ hrest).trans hright.symm)

/-! ## Block comments -/

/-- The items outside block comments; `inside` says whether one is open. -/
def outsideBlocksFrom (inside : Bool) : List (Item ι) → List (Item ι)
  | [] => []
  | .char '*' :: .char '/' :: rest =>
    if inside then outsideBlocksFrom false rest
    else .char '*' :: outsideBlocksFrom false (.char '/' :: rest)
  | .char '/' :: .char '*' :: rest =>
    if inside then outsideBlocksFrom true (.char '*' :: rest)
    else if contains ['*', '/'] (bare rest) then outsideBlocksFrom true rest
    else .char '/' :: outsideBlocksFrom false (.char '*' :: rest)
  | item :: rest =>
    if inside then outsideBlocksFrom true rest else item :: outsideBlocksFrom false rest

/-- The removal of block comments passes over a text without their marks. -/
theorem dropBlocksFrom_append_quote {q : Char} (hq : IsMark q) {w : List Char}
    (hopen : contains ['/', '*'] w = false) (hclose : contains ['*', '/'] w = false)
    (inside : Bool) (rest : List Char) : dropBlocksFrom inside (w ++ q :: rest)
      = if inside then dropBlocksFrom true rest else w ++ q :: dropBlocksFrom false rest := by
  induction w with
  | nil => exact dropBlocksFrom_cons inside (fun h => absurd h hq.star) (fun h => absurd h hq.slash)
  | cons c w ih =>
      rw [contains, startsWith_pair, Bool.or_eq_false_iff] at hopen hclose
      have hhead : ∀ a b, (a == c && some b == w.head?) = false → q ≠ b → c = a →
          (w ++ q :: rest).head? ≠ some b := by
        intro a b hpair hb hc heq
        cases w with
        | nil => exact hb (by simpa using heq)
        | cons d w =>
            have hd : d = b := by simpa using heq
            simp [hc, hd] at hpair
      rw [List.cons_append, dropBlocksFrom_cons inside (hhead _ _ hclose.1 hq.slash)
        (hhead _ _ hopen.1 hq.star)]
      cases inside with
      | true => simpa using ih hopen.2 hclose.2
      | false => simpa using ih hopen.2 hclose.2

/-- A text that starts with a mark of a comment starts with that character, not with a literal. -/
theorem exists_char_of_head? {f : ι → List Char} {items : List (Item ι)} (h : Fits f items)
    {c : Char} (hc : c = '/' ∨ c = '*') (hhead : (fill f items).head? = some c) :
    ∃ rest, items = .char c :: rest := by
  cases items with
  | nil => cases hhead
  | cons item rest =>
      cases item with
      | char d =>
          have hd : d = c := by simpa using hhead
          exact ⟨rest, by rw [hd]⟩
      | literal q i =>
          have hq := h.literal.isMark
          have hqc : q = c := by simpa using hhead
          rcases hc with rfl | rfl
          · exact absurd hqc hq.slash
          · exact absurd hqc hq.star

/-- An item that is no part of a mark is kept outside a comment. -/
theorem dropBlocksFrom_item {f : ι → List Char} (inside : Bool) {item : Item ι}
    {rest : List (Item ι)} (h : Fits f (item :: rest))
    (hclose : ∀ more, item = .char '*' → rest = .char '/' :: more → False)
    (hopen : ∀ more, item = .char '/' → rest = .char '*' :: more → False) :
    dropBlocksFrom inside (fill f (item :: rest))
      = if inside then dropBlocksFrom true (fill f rest)
        else item.text f ++ dropBlocksFrom false (fill f rest) := by
  cases item with
  | char c =>
      refine dropBlocksFrom_cons inside ?_ ?_
      · intro hc hhead
        obtain ⟨more, hmore⟩ := exists_char_of_head? h.cons (.inl rfl) hhead
        exact hclose more (by rw [hc]) hmore
      · intro hc hhead
        obtain ⟨more, hmore⟩ := exists_char_of_head? h.cons (.inr rfl) hhead
        exact hopen more (by rw [hc]) hmore
  | literal q i =>
      have hq := h.literal.isMark
      have hpass := dropBlocksFrom_append_quote hq
        (contains_quote_cons hq.slash h.literal.noOpen)
        (contains_quote_cons hq.star h.literal.noClose) inside (fill f rest)
      rw [fill_literal]
      simpa [Item.text] using hpass

/-- Block comments are dropped from the template. -/
theorem dropBlocksFrom_fill {f : ι → List Char} (inside : Bool) (items : List (Item ι))
    (h : Fits f items) :
    dropBlocksFrom inside (fill f items) = fill f (outsideBlocksFrom inside items) := by
  fun_induction outsideBlocksFrom inside items with
  | case1 => rfl
  | case2 rest ih => simpa [dropBlocksFrom] using ih h.cons.cons
  | case3 inside rest hinside ih =>
      simp only [fill_char] at ih ⊢
      rw [dropBlocksFrom, if_neg hinside, ih h.cons]
  | case4 rest ih =>
      simp only [fill_char] at ih ⊢
      rw [dropBlocksFrom, if_pos rfl, ih h.cons]
  | case5 inside rest hinside hclosed ih =>
      rw [← contains_fill h.cons.cons] at hclosed
      simp only [fill_char]
      rw [dropBlocksFrom, if_neg hinside, if_pos hclosed, ih h.cons.cons]
  | case6 inside rest hinside hclosed ih =>
      rw [← contains_fill h.cons.cons] at hclosed
      simp only [fill_char] at ih ⊢
      rw [dropBlocksFrom, if_neg hinside, if_neg hclosed, ih h.cons]
  | case7 item rest hclose hopen ih =>
      rw [dropBlocksFrom_item true h hclose hopen, if_pos rfl, ih h.cons]
  | case8 inside item rest hclose hopen hinside ih =>
      rw [dropBlocksFrom_item inside h hclose hopen, if_neg hinside, ih h.cons]
      rfl

/-- What is outside block comments are some of the items. -/
theorem outsideBlocksFrom_subset (inside : Bool) (items : List (Item ι)) :
    outsideBlocksFrom inside items ⊆ items := by
  fun_induction outsideBlocksFrom inside items <;> grind

/-- The items outside block comments. -/
def outsideBlocks (items : List (Item ι)) : List (Item ι) := outsideBlocksFrom false items

/-! ## Line comments -/

/-- Is a character kept when line comments are removed, and where does the removal stand behind
it?  `opens` says whether a comment opens at the character. -/
def lineStep (state : LineState) (opens : Bool) (c : Char) : Bool × LineState :=
  match state with
  | .comment => if c = '\n' then (true, .start) else (false, .comment)
  | .lead => (false, if isBlank c then .lead else .comment)
  | .start =>
    if opens then (false, if isBlank c then .lead else .comment)
    else (true, if c = '\n' then .start else .within)
  | .within => (true, if c = '\n' then .start else .within)

/-- The items outside line comments, or nothing when a literal stands in one. -/
def outsideLinesFrom (state : LineState) : List (Item ι) → Option (List (Item ι))
  | [] => some []
  | .char c :: rest =>
    let step := lineStep state (opensLineComment (c :: front rest)) c
    (outsideLinesFrom step.2 rest).map ((if step.1 then [.char c] else []) ++ ·)
  | .literal q i :: rest =>
    if state = .start ∨ state = .within then
      (outsideLinesFrom .within rest).map (.literal q i :: ·)
    else none

/-- The removal of line comments, one character at a time. -/
theorem dropLinesFrom_step (state : LineState) (c : Char) (cs : List Char) :
    dropLinesFrom state (c :: cs)
      = (if (lineStep state (opensLineComment (c :: cs)) c).1 then [c] else [])
        ++ dropLinesFrom (lineStep state (opensLineComment (c :: cs)) c).2 cs := by
  cases state with
  | comment =>
      rw [dropLinesFrom_comment]
      by_cases hc : c = '\n' <;> simp [lineStep, hc]
  | lead => exact dropLinesFrom_lead c cs
  | start =>
      rw [dropLinesFrom_start]
      by_cases hopens : opensLineComment (c :: cs) = true <;> simp [lineStep, hopens]
  | within => exact dropLinesFrom_within c cs

/-- A quote opens no line comment, so what follows it does not matter. -/
theorem opensLineComment_append_quote {q : Char} (hq : IsMark q) (w rest : List Char) :
    opensLineComment (w ++ q :: rest) = opensLineComment w := by
  induction w with
  | nil =>
      rw [List.nil_append, opensLineComment_of_not_blank hq.blank, startsWith_pair,
        beq_false_of_ne (Ne.symm hq.dash)]
      rfl
  | cons c w ih =>
      by_cases hc : isBlank c = true
      · rw [List.cons_append, opensLineComment_blank hc, opensLineComment_blank hc, ih]
      · have hc' : isBlank c = false := by simpa using hc
        have hhead : (some '-' == (w ++ q :: rest).head?) = (some '-' == w.head?) := by
          cases w with
          | nil => simpa using Ne.symm hq.dash
          | cons d w => rfl
        rw [List.cons_append, opensLineComment_of_not_blank hc',
          opensLineComment_of_not_blank hc', startsWith_pair, startsWith_pair, hhead]

/-- Whether a line comment opens is decided in front of the first literal. -/
theorem opensLineComment_fill {f : ι → List Char} {items : List (Item ι)} (h : Fits f items) :
    opensLineComment (fill f items) = opensLineComment (front items) := by
  rw [fill_eq]
  rcases rear_cases items with hrear | ⟨q, i, rest, hrear⟩
  · rw [hrear, fill_nil, List.append_nil]
  · have hq : IsMark q := (h.subset (hrear ▸ rear_subset items)).literal.isMark
    rw [hrear, fill_literal, opensLineComment_append_quote hq]

/-- The removal of line comments passes over the text of a literal. -/
theorem dropLinesFrom_append_quote {q : Char} (hq : IsMark q) {body : List Char}
    (hbody : breaksIntoComment body = false) {state : LineState}
    (hstate : state = .within ∨ state = .start ∧ opensLineComment body = false)
    (rest : List Char) :
    dropLinesFrom state (body ++ q :: rest) = body ++ q :: dropLinesFrom .within rest := by
  have hline : q ≠ '\n' := by
    rintro rfl
    exact absurd hq.blank (by decide)
  induction body generalizing state with
  | nil =>
      have hkeep : dropLinesFrom .within (q :: rest) = q :: dropLinesFrom .within rest := by
        rw [dropLinesFrom_within, if_neg hline]
      rcases hstate with rfl | ⟨rfl, -⟩
      · exact hkeep
      · have hopens := opensLineComment_append_quote hq [] rest
        rw [List.nil_append] at hopens ⊢
        rw [dropLinesFrom_start, hopens, ← dropLinesFrom_within, hkeep]
        rfl
  | cons c body ih =>
      rw [breaksIntoComment, Bool.or_eq_false_iff] at hbody
      have hmore : dropLinesFrom (if c = '\n' then .start else .within) (body ++ q :: rest)
          = body ++ q :: dropLinesFrom .within rest := by
        apply ih hbody.2
        by_cases hc : c = '\n'
        · rw [if_pos hc]
          exact .inr ⟨rfl, by simpa [hc] using hbody.1⟩
        · rw [if_neg hc]
          exact .inl rfl
      rcases hstate with rfl | ⟨rfl, hopens⟩
      · rw [List.cons_append, dropLinesFrom_within, hmore]
        rfl
      · rw [← opensLineComment_append_quote hq _ rest] at hopens
        rw [List.cons_append] at hopens ⊢
        rw [dropLinesFrom_start, hopens, hmore]
        rfl

/-- Line comments are dropped from the template. -/
theorem dropLinesFrom_fill {f : ι → List Char} {items out : List (Item ι)} (h : Fits f items)
    {state : LineState} (hout : outsideLinesFrom state items = some out) :
    dropLinesFrom state (fill f items) = fill f out := by
  induction items generalizing state out with
  | nil =>
      obtain rfl : [] = out := Option.some.inj hout
      rfl
  | cons item rest ih =>
      cases item with
      | char c =>
          have hopens : opensLineComment (c :: fill f rest) = opensLineComment (c :: front rest) :=
            opensLineComment_fill h
          rw [outsideLinesFrom] at hout
          obtain ⟨more, hmore, rfl⟩ := Option.map_eq_some_iff.mp hout
          rw [fill_char, dropLinesFrom_step, hopens, ih h.cons hmore]
          cases (lineStep state (opensLineComment (c :: front rest)) c).1 <;> rfl
      | literal q i =>
          have hq := h.literal.isMark
          rw [outsideLinesFrom] at hout
          split at hout
          · rename_i hstate
            obtain ⟨more, hmore, rfl⟩ := Option.map_eq_some_iff.mp hout
            have hopen := dropLinesFrom_append_quote hq (show breaksIntoComment [] = false by rfl)
              (hstate.symm.imp_right fun hstart => ⟨hstart, rfl⟩) (f i ++ q :: fill f rest)
            rw [dropLinesFrom_append_quote hq h.literal.noLine (.inl rfl), ih h.cons hmore] at hopen
            rw [fill_literal, fill_literal]
            exact hopen
          · cases hout

/-- What is outside line comments are some of the items. -/
theorem outsideLinesFrom_subset {state : LineState} {items out : List (Item ι)}
    (hout : outsideLinesFrom state items = some out) : out ⊆ items := by
  fun_induction outsideLinesFrom state items generalizing out <;>
    grind [Option.map_eq_some_iff]

/-! ## Headers -/

/-- The items in front of the first header, and the segments that start with one each. -/
def itemSegmentsFrom (before : Option Char) :
    List (Item ι) → List (Item ι) × List (List (Item ι))
  | [] => ([], [])
  | .char c :: rest =>
    let (lead, segments) := itemSegmentsFrom (some c) rest
    if isHeader before (c :: front rest) then ([], (.char c :: lead) :: segments)
    else (.char c :: lead, segments)
  | .literal q i :: rest =>
    let (lead, segments) := itemSegmentsFrom (some q) rest
    (.literal q i :: lead, segments)

/-- The segments of a script with holes. -/
def itemSegments (items : List (Item ι)) : List (List (Item ι)) := (itemSegmentsFrom none items).2

/-- A header does not reach over a quote. -/
theorem isHeader_append_quote {q : Char} (hq : IsMark q) (before : Option Char)
    (w rest : List Char) : isHeader before (w ++ q :: rest) = isHeader before w := by
  have hboundary : isBoundary (q :: rest).head? = true := by simp [isBoundary, hq.word]
  have hnext : keyword "TABLE" (trimStart (q :: rest)) = none := by
    rw [trimStart_cons_of_not_blank hq.blank]
    exact keyword_cons_of_not_word (by decide) (by decide) hq.word rest
  rw [isHeader_eq, isHeader_eq, phrase_append (by decide) (by decide) w hboundary hnext]
  cases phrase "CREATE" "TABLE" w with
  | none => rfl
  | some left =>
      cases left with
      | nil => simp [isBoundary, hq.word]
      | cons c left => rfl

/-- Whether a header stands here is decided in front of the first literal. -/
theorem isHeader_fill {f : ι → List Char} {items : List (Item ι)} (h : Fits f items)
    (before : Option Char) : isHeader before (fill f items) = isHeader before (front items) := by
  rw [fill_eq]
  rcases rear_cases items with hrear | ⟨q, i, rest, hrear⟩
  · rw [hrear, fill_nil, List.append_nil]
  · have hq : IsMark q := (h.subset (hrear ▸ rear_subset items)).literal.isMark
    rw [hrear, fill_literal, isHeader_append_quote hq]

/-- The cut at headers passes over a text without a header. -/
theorem segmentsFrom_append_quote {q : Char} (hq : IsMark q) {body : List Char}
    {before : Option Char} (hbody : (segmentsFrom before body).2 = []) (rest : List Char) :
    segmentsFrom before (body ++ q :: rest)
      = withFront (body ++ [q]) (segmentsFrom (some q) rest) := by
  induction body generalizing before with
  | nil =>
      have hheader : isHeader before (q :: rest) = false := by
        rw [← List.nil_append (q :: rest), isHeader_append_quote hq, isHeader_eq]
        cases isBoundary before <;> rfl
      rw [List.nil_append, segmentsFrom_cons, hheader]
      rfl
  | cons c body ih =>
      rw [segmentsFrom_cons] at hbody
      have hheader : isHeader before (c :: body) = false := by
        by_contra hyes
        rw [if_pos (by simpa using hyes)] at hbody
        cases hbody
      rw [hheader] at hbody
      rw [List.cons_append, segmentsFrom_cons, ← List.cons_append, isHeader_append_quote hq,
        hheader, ih hbody]
      rfl

/-- The template is cut into segments. -/
theorem segmentsFrom_fill {f : ι → List Char} {items : List (Item ι)} (h : Fits f items)
    (before : Option Char) : segmentsFrom before (fill f items)
      = Prod.map (fill f) (List.map (fill f)) (itemSegmentsFrom before items) := by
  induction items generalizing before with
  | nil => rfl
  | cons item rest ih =>
      cases item with
      | char c =>
          have hheader : isHeader before (c :: fill f rest) = isHeader before (c :: front rest) :=
            isHeader_fill h before
          rw [fill_char, segmentsFrom_cons, hheader, ih h.cons, itemSegmentsFrom]
          split <;> rfl
      | literal q i =>
          have hq := h.literal.isMark
          have hopen := segmentsFrom_append_quote hq
            (show (segmentsFrom before []).2 = [] by rfl) (f i ++ q :: fill f rest)
          rw [segmentsFrom_append_quote hq h.literal.noHeader, ih h.cons] at hopen
          rw [fill_literal, itemSegmentsFrom]
          simpa [withFront] using hopen

/-- **The segments of a script** are those of the script with holes, filled. -/
theorem segments_fill {f : ι → List Char} {items : List (Item ι)} (h : Fits f items) :
    segments (fill f items) = (itemSegments items).map (fill f) := by
  rw [segments, segmentsFrom_fill h]
  rfl

/-- The segments of a script are made of its items. -/
theorem itemSegmentsFrom_subset (before : Option Char) (items : List (Item ι)) :
    (itemSegmentsFrom before items).1 ⊆ items ∧
      ∀ segment ∈ (itemSegmentsFrom before items).2, segment ⊆ items := by
  induction items generalizing before with
  | nil => simp [itemSegmentsFrom]
  | cons item rest ih =>
      have hfront : ∀ before, item :: (itemSegmentsFrom before rest).1 ⊆ item :: rest :=
        fun before => List.cons_subset_cons item (ih before).1
      have hlater : ∀ before, ∀ segment ∈ (itemSegmentsFrom before rest).2, segment ⊆ item :: rest :=
        fun before segment hmem => List.subset_cons_of_subset item ((ih before).2 segment hmem)
      cases item with
      | char c =>
          by_cases hheader : isHeader before (c :: front rest) = true
          · simp only [itemSegmentsFrom, hheader, if_true]
            refine ⟨List.nil_subset _, ?_⟩
            intro segment hsegment
            rcases List.mem_cons.mp hsegment with rfl | hsegment
            · exact hfront _
            · exact hlater _ segment hsegment
          · simp only [itemSegmentsFrom, if_neg hheader]
            exact ⟨hfront _, hlater _⟩
      | literal q i => exact ⟨hfront _, hlater _⟩

end CodeIndex.Sql
