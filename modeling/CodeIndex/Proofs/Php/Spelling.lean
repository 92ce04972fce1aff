import Mathlib.Data.List.TakeWhile
import Mathlib.Tactic.ByContra
import CodeIndex.Php.Extract
import CodeIndex.Proofs.Text.Strip

/-!
# How variables are spelled

A variable is an identifier behind a dollar sign, and a promoted parameter may have an ampersand in
front of that.  Gaps, comments and markup may separate the three.  The name that is recorded is the
identifier if they stand together; otherwise what separates them stays in it, since markers are
removed from the front of the text only.

* `variableName_text` : what is recorded of a spelling.
* `isIdentifier_recorded_iff` : when that is an identifier.
* `exists_spelling`, `exists_spelling_reference` : what is read as a variable is spelled like one.
-/

namespace CodeIndex.Php

open Text

/-! ## Identifiers and separators -/

/-- The code points of the characters that separate tokens. -/
def gapCodes : List Nat := [9, 10, 11, 12, 13, 0x20, 0xa0, 0x200b, 0x2060, 0xfeff]

/-- The codes of the gap characters are listed. -/
theorem mem_gapCodes_of_isGap {c : Char} (h : isGap c = true) : c.toNat ∈ gapCodes := by
  simp only [isGap, Bool.or_eq_true, Bool.and_eq_true, decide_eq_true_eq, beq_iff_eq] at h
  simp only [gapCodes, List.mem_cons, List.not_mem_nil, or_false]
  omega

/-- What holds of each listed character holds of each separator. -/
theorem forall_of_isGap {p : Char → Bool} (h : (gapCodes.all fun n => p (Char.ofNat n)) = true)
    {c : Char} (hc : isGap c = true) : p c = true := by
  have hcode := List.all_eq_true.mp h c.toNat (mem_gapCodes_of_isGap hc)
  rwa [Char.ofNat_toNat] at hcode

/-- A character in front of a variable that is no marker and starts no name. -/
def isForeign (c : Char) : Bool := !isNameStart c && c != '&' && c != '.' && c != '$'

/-- What separates two tokens: gaps, and texts that begin as comments or markup do. -/
inductive Separates : List Char → Prop
  | nil : Separates []
  | gap {gap rest : List Char} (hgap : gap.all isGap = true) (hrest : Separates rest) :
      Separates (gap ++ rest)
  | trivia {text rest : List Char} (htext : TokenKind.comment.spells text = true ∨
      TokenKind.markup.spells text = true) (hrest : Separates rest) : Separates (text ++ rest)

/-- Two separating texts separate. -/
theorem Separates.append {a b : List Char} (ha : Separates a) (hb : Separates b) :
    Separates (a ++ b) := by
  induction ha with
  | nil => exact hb
  | gap hgap _ ih =>
      rw [List.append_assoc]
      exact .gap hgap ih
  | trivia htext _ ih =>
      rw [List.append_assoc]
      exact .trivia htext ih

/-- It starts with no marker, and with no character of a name. -/
theorem Separates.head {c : Char} {cs : List Char} (h : Separates (c :: cs)) :
    isForeign c = true := by
  generalize hall : c :: cs = all at h
  induction h with
  | nil => cases hall
  | @gap gap rest hgap _ ih =>
      cases gap with
      | nil => exact ih hall
      | cons d gap =>
          cases hall
          rw [List.all_cons, Bool.and_eq_true] at hgap
          exact forall_of_isGap (by decide +kernel) hgap.1
  | @trivia text rest htext _ ih =>
      cases text with
      | nil => simp [TokenKind.spells] at htext
      | cons d text =>
          cases hall
          have hmark : c = '/' ∨ c = '#' ∨ c = '?' := by
            simpa [TokenKind.spells, or_assoc] using htext
          rcases hmark with rfl | rfl | rfl <;> decide

/-- The first character of an identifier is one that may start a name. -/
theorem exists_of_isIdentifier {cs : List Char} (h : isIdentifier cs = true) :
    ∃ c rest, cs = c :: rest ∧ isNameStart c = true := by
  cases cs with
  | nil => cases h
  | cons c rest =>
      rw [isIdentifier, Bool.and_eq_true] at h
      exact ⟨c, rest, rfl, h.1⟩

/-- An identifier holds no marker and no separator. -/
theorem plain_of_isIdentifier {cs : List Char} (h : isIdentifier cs = true) :
    ∀ c ∈ cs, c ≠ '$' ∧ c ≠ '&' ∧ c ≠ '.' ∧ isGap c = false := by
  have hchars : ∀ c ∈ cs, isNameChar c = true := by
    cases cs with
    | nil => cases h
    | cons first rest =>
        rw [isIdentifier, Bool.and_eq_true] at h
        exact List.forall_mem_cons.mpr ⟨by rw [isNameChar, h.1, Bool.true_or],
          List.all_eq_true.mp h.2⟩
  intro c hc
  have hchar := hchars c hc
  have hgap : isGap c = false := by
    rw [Bool.eq_false_iff]
    intro hgap
    have hnone := forall_of_isGap (p := fun c => !isNameChar c) (by decide +kernel) hgap
    simp [hchar] at hnone
  refine ⟨?_, ?_, ?_, hgap⟩ <;> rintro rfl <;> revert hchar <;> decide

/-! ## Spellings -/

/-- A variable as it is written. -/
structure VariableSpelling where
  /-- What separates an ampersand in front from the dollar sign, if there is an ampersand. -/
  reference : Option (List Char) := none
  /-- What separates the dollar sign from the name. -/
  gap : List Char := []
  name : List Char
  separates_reference : ∀ sep, reference = some sep → Separates sep := by simp
  separates_gap : Separates gap
  isIdentifier_name : isIdentifier name = true

namespace VariableSpelling

/-- The text of the variable. -/
def text (v : VariableSpelling) : List Char :=
  (match v.reference with
    | some sep => '&' :: sep
    | none => []) ++ '$' :: (v.gap ++ v.name)

/-- What is recorded as its name. -/
def recorded (v : VariableSpelling) : List Char :=
  match v.reference with
  | some (c :: sep) => c :: sep ++ '$' :: (v.gap ++ v.name)
  | _ => v.gap ++ v.name

/-- Nothing separates the markers and the name. -/
structure IsTight (v : VariableSpelling) : Prop where
  reference : ∀ sep, v.reference = some sep → sep = []
  gap : v.gap = []

/-- Of a variable without gaps the identifier alone is recorded. -/
theorem recorded_of_isTight {v : VariableSpelling} (h : v.IsTight) : v.recorded = v.name := by
  obtain ⟨hreference, hgap⟩ := h
  rw [recorded, hgap]
  split
  · rename_i c sep hsome
    cases hreference _ hsome
  · rfl

end VariableSpelling

/-! ## What is recorded -/

/-- Nothing is stripped in front of what is no dot. -/
theorem stripAll_points {c : Char} (h : c ≠ '.') (rest : List Char) :
    stripAll ['.', '.', '.'] (c :: rest) = c :: rest :=
  stripAll_of_stripStart_eq_none (stripStart?_eq_none_iff.mpr fun hstarts =>
    h (List.cons_prefix_cons.mp hstarts).1.symm)

/-- A text that starts with no marker is recorded as it is. -/
theorem variableName_foreign {c : Char} (h : isForeign c = true) (rest : List Char) :
    variableName (String.ofList (c :: rest)) = String.ofList (c :: rest) := by
  simp only [isForeign, Bool.and_eq_true, bne_iff_ne, ne_eq] at h
  obtain ⟨⟨⟨-, hreference⟩, hpoint⟩, hdollar⟩ := h
  simp [variableName, hreference, stripAll_points hpoint, hdollar]

/-- A dollar sign is removed. -/
theorem variableName_dollar {c : Char} (h : c ≠ '$') (rest : List Char) :
    variableName (String.ofList ('$' :: c :: rest)) = String.ofList (c :: rest) := by
  have hstrip := stripAll_points (c := '$') (by decide) (c :: rest)
  simp [variableName, hstrip, h]

/-- So is an ampersand in front. -/
theorem variableName_reference (rest : List Char) :
    variableName (String.ofList ('&' :: rest)) = variableName (String.ofList rest) := by
  simp [variableName]

namespace VariableSpelling

variable (v : VariableSpelling)

/-- Behind the dollar sign stands something that separates it from the name, or the name. -/
theorem exists_behind : ∃ c rest, v.gap ++ v.name = c :: rest ∧ c ≠ '$' ∧
    (v.gap ≠ [] → isForeign c = true) := by
  have hseparates := v.separates_gap
  cases hgap : v.gap with
  | nil =>
      obtain ⟨c, rest, hname, hstart⟩ := exists_of_isIdentifier v.isIdentifier_name
      refine ⟨c, rest, hname, ?_, fun h => absurd rfl h⟩
      rintro rfl
      revert hstart
      decide
  | cons c gap =>
      rw [hgap] at hseparates
      have hforeign := hseparates.head
      refine ⟨c, gap ++ v.name, rfl, ?_, fun _ => hforeign⟩
      rintro rfl
      revert hforeign
      decide

/-- **What is recorded of a variable**: the markers in front are removed up to the first text that
separates them. -/
theorem variableName_text :
    variableName (String.ofList v.text) = String.ofList v.recorded := by
  obtain ⟨c, rest, hbehind, hdollar, -⟩ := v.exists_behind
  rw [text, recorded, hbehind]
  match hreference : v.reference with
  | none => exact variableName_dollar hdollar rest
  | some [] =>
      rw [List.singleton_append, variableName_reference]
      exact variableName_dollar hdollar rest
  | some (d :: sep) =>
      rw [List.cons_append, variableName_reference]
      exact variableName_foreign (v.separates_reference _ hreference).head _

/-- **When the name is bare**: an identifier is recorded exactly if nothing separates the markers
and the name. -/
theorem isIdentifier_recorded_iff : isIdentifier v.recorded = true ↔ v.IsTight := by
  have hforeign : ∀ c rest, isForeign c = true → isIdentifier (c :: rest) = true → False := by
    intro c rest hc hname
    rw [isIdentifier, Bool.and_eq_true] at hname
    simp [isForeign, hname.1] at hc
  constructor
  · intro hname
    obtain ⟨c, rest, hbehind, -, hgap⟩ := v.exists_behind
    rw [recorded] at hname
    refine ⟨?_, ?_⟩
    · rintro (_ | ⟨d, sep⟩) hreference
      · rfl
      · rw [hreference] at hname
        exact (hforeign _ _ (v.separates_reference _ hreference).head hname).elim
    · by_contra hne
      split at hname
      · rename_i d sep hreference
        exact hforeign _ _ (v.separates_reference _ hreference).head hname
      · rw [hbehind] at hname
        exact hforeign _ _ (hgap hne) hname
  · intro htight
    rw [recorded_of_isTight htight]
    exact v.isIdentifier_name

end VariableSpelling

/-! ## What is read as a variable -/

/-- The text of tokens behind another one, with the gap in front of each. -/
def trail (ts : List Token) : List Char := ts.flatMap fun t => t.gap.text.toList ++ t.text.toList

/-- The text of tokens starts with the text of the first. -/
theorem toList_sourceText (t : Token) (ts : List Token) :
    (sourceText (t :: ts)).toList = t.text.toList ++ trail ts := by
  have hfold : ∀ (ts : List Token) (text : String),
      (ts.foldl (fun text u => text ++ u.gap.text ++ u.text) text).toList
        = text.toList ++ trail ts := by
    intro ts
    induction ts with
    | nil => intro text; simp [trail]
    | cons u ts ih =>
        intro text
        rw [List.foldl_cons, ih]
        simp [trail]
  exact hfold ts t.text

/-- Trails stand one behind the other. -/
theorem trail_append (ts us : List Token) : trail (ts ++ us) = trail ts ++ trail us :=
  List.flatMap_append

/-- Comments and markup separate. -/
theorem separates_trail {ts : List Token} (h : ∀ t ∈ ts, t.isTrivia = true) :
    Separates (trail ts) := by
  induction ts with
  | nil => exact .nil
  | cons t ts ih =>
      obtain ⟨ht, hts⟩ := List.forall_mem_cons.mp h
      have hspelled : TokenKind.comment.spells t.text.toList = true ∨
          TokenKind.markup.spells t.text.toList = true := by
        have hkind := t.isSpelled
        rw [Token.isTrivia, Bool.or_eq_true, Token.isComment, Token.isMarkup, beq_iff_eq,
          beq_iff_eq] at ht
        rcases ht with ht | ht
        · exact .inl (ht ▸ hkind)
        · exact .inr (ht ▸ hkind)
      have htrail : trail (t :: ts) = t.gap.text.toList ++ (t.text.toList ++ trail ts) := by
        simp [trail]
      rw [htrail]
      exact .gap t.gap.isBlank (.trivia hspelled (ih hts))

/-- The tokens of comments and markup are comments and markup. -/
theorem isTrivia_of_mem_tokensOf {ts : List Tree} (h : ∀ t ∈ ts, t.isTrivia = true) :
    ∀ u ∈ tokensOf ts, u.isTrivia = true := by
  induction ts with
  | nil => simp [tokensOf]
  | cons t ts ih =>
      obtain ⟨ht, hts⟩ := List.forall_mem_cons.mp h
      cases t with
      | leaf token =>
          rw [tokensOf_leaf_cons]
          exact List.forall_mem_cons.mpr ⟨ht, ih hts⟩
      | group opener inside closer => cases ht

/-- Comments and markup that are skipped separate, with the gap behind them. -/
theorem separates_skipped (ts : List Tree) {gap : List Char} (hgap : gap.all isGap = true) :
    Separates (trail (tokensOf (ts.takeWhile Tree.isTrivia)) ++ gap) := by
  have hblank : Separates gap := by
    rw [← List.append_nil gap]
    exact .gap hgap .nil
  exact (separates_trail
    (isTrivia_of_mem_tokensOf fun _ => List.mem_takeWhile_imp)).append hblank

/-- A tree that is a token of some sort. -/
theorem exists_of_isLeaf {test : Token → Bool} {t : Tree} (h : t.isLeaf test = true) :
    ∃ u, t = .leaf u ∧ test u = true := by
  cases t with
  | leaf u => exact ⟨u, rfl, h⟩
  | group opener inside closer => cases h

/-- The text of a symbol is the symbol. -/
theorem text_of_isSymbol {sym : String} {t : Token} (h : t.isSymbol sym = true) : t.text = sym := by
  rw [Token.isSymbol, Bool.and_eq_true, beq_iff_eq, beq_iff_eq] at h
  exact h.2

/-- **A variable is spelled like one**, and without an ampersand.  The text of its tokens behind
another one has a gap in front. -/
theorem exists_spelling {ts run rest : List Tree} (h : variableRun ts = some (run, rest)) :
    ∃ v : VariableSpelling, v.reference = none ∧ (treeText run).toList = v.text ∧
      ∃ gap, gap.all isGap = true ∧ trail (tokensOf run) = gap ++ v.text := by
  have hrun : ∀ (first : Token) (more : List Token) (v : VariableSpelling),
      tokensOf run = first :: more → v.reference = none →
      first.text.toList ++ trail more = v.text →
      ∃ v : VariableSpelling, v.reference = none ∧ (treeText run).toList = v.text ∧
        ∃ gap, gap.all isGap = true ∧ trail (tokensOf run) = gap ++ v.text := by
    intro first more v htokens hreference htext
    refine ⟨v, hreference, ?_, first.gap.text.toList, first.gap.isBlank, ?_⟩
    · rw [treeText, htokens, toList_sourceText, htext]
    · rw [htokens, ← htext]
      simp [trail]
  cases ts with
  | nil => cases h
  | cons t behind =>
      simp only [variableRun] at h
      split at h
      · rename_i hvariable
        obtain ⟨rfl, rfl⟩ := Prod.mk.inj (Option.some.inj h)
        obtain ⟨u, rfl, hkind⟩ := exists_of_isLeaf hvariable
        have hspelled := u.isSpelled
        rw [eq_of_beq hkind, TokenKind.spells, Bool.and_eq_true, beq_iff_eq] at hspelled
        obtain ⟨hdollar, hname⟩ := hspelled
        refine hrun u [] ⟨none, [], _, by simp, .nil, hname⟩ rfl rfl ?_
        rw [List.head?_eq_some_iff] at hdollar
        obtain ⟨name, hdollar⟩ := hdollar
        simp [VariableSpelling.text, trail, hdollar]
      · split at h
        · rename_i hdollar
          split at h
          · rename_i n last hdrop
            split at h
            · rename_i hname
              obtain ⟨rfl, rfl⟩ := Prod.mk.inj (Option.some.inj h)
              obtain ⟨u, rfl, hsymbol⟩ := exists_of_isLeaf hdollar
              obtain ⟨w, rfl, hkind⟩ := exists_of_isLeaf hname
              have hdollar := text_of_isSymbol hsymbol
              have hidentifier := w.isSpelled
              rw [eq_of_beq hkind] at hidentifier
              have hgap := separates_skipped behind w.gap.isBlank
              refine hrun u (tokensOf (behind.takeWhile Tree.isTrivia) ++ [w])
                ⟨none, _, _, by simp, hgap, hidentifier⟩ ?_ rfl ?_
              · rw [List.cons_append, tokensOf_leaf_cons, tokensOf_append]
                rfl
              · rw [trail_append, hdollar]
                simp [VariableSpelling.text, trail]
            · cases h
          · cases h
        · cases h

/-- **So is one with an ampersand in front**, if there is one. -/
theorem exists_spelling_reference {ts left more run rest reference : List Tree}
    (hreference : referenceRun ts = (reference, left)) (h : variableRun more = some (run, rest)) :
    ∃ v : VariableSpelling, (treeText (reference ++ run)).toList = v.text := by
  obtain ⟨v, hnone, htext, gap, hgap, htrail⟩ := exists_spelling h
  have hplain : reference = [] → (treeText (reference ++ run)).toList = v.text := by
    rintro rfl
    exact htext
  cases ts with
  | nil => exact ⟨v, hplain (congrArg Prod.fst hreference).symm⟩
  | cons t behind =>
      simp only [referenceRun] at hreference
      split at hreference
      · rename_i hsymbol
        obtain ⟨rfl, rfl⟩ := Prod.mk.inj hreference
        obtain ⟨u, rfl, hsymbol⟩ := exists_of_isLeaf hsymbol
        have hmark := text_of_isSymbol hsymbol
        have hseparates := separates_skipped behind hgap
        refine ⟨{ v with
          reference := some _
          separates_reference := fun sep hsep => Option.some.inj hsep ▸ hseparates }, ?_⟩
        rw [treeText, List.cons_append, tokensOf_leaf_cons, toList_sourceText, tokensOf_append,
          trail_append, htrail, hmark]
        simp [VariableSpelling.text, hnone]
      · exact ⟨v, hplain (congrArg Prod.fst hreference).symm⟩

end CodeIndex.Php
