import CodeIndex.Proofs.Sql.KeyList
import CodeIndex.Proofs.Sql.Leader

/-!
# Keys and the options behind their lists

A key is its head, a list in parentheses and options.  The head decides the kind and the name, and
the list, read up to the last closing parenthesis of the part, the columns.  So the options change
nothing about the key exactly if they hold no closing parenthesis, in a literal or outside.

* `IsKeyHead` : the heads of the four kinds.
* `IsKeyHead.exists_name` : what is read of a key behind its head.
* `exists_keyHead`, `exists_primaryHead` : every part that is a key has such a head, and the primary
  key of a table is read behind the first primary one.
* `parseKey_options` : when options leave a key as it is.
-/

namespace CodeIndex.Sql

open Text Position

variable {kind : KeyKind} {head : List Char}

/-! ## Heads -/

/-- Nothing, or the keyword of a constraint, its name and blanks. -/
inductive IsConstraint : List Char → Prop
  | absent : IsConstraint []
  | named {lead name gap : List Char} (hlead : IsLead "CONSTRAINT" lead) (hname : name ≠ [])
      (hchars : ∀ c ∈ name, isBlank c = false) (hne : gap ≠ [])
      (hgap : ∀ c ∈ gap, isBlank c = true) : IsConstraint (lead ++ (name ++ gap))

/-- Nothing, or the choice of an index type and blanks. -/
inductive IsUsing : List Char → Prop
  | absent : IsUsing []
  | named {lead gap : List Char} (hlead : IsLead "USING" lead) (type : Word)
      (hgap : ∀ c ∈ gap, isBlank c = true) : IsUsing (lead ++ (type.chars ++ gap))

/-- Blanks, or a name between optional quotes with blanks around it. -/
inductive IsKeyName : List Char → Prop
  | blank {gap : List Char} (hgap : ∀ c ∈ gap, isBlank c = true) : IsKeyName gap
  | named {gap behind : List Char} (hgap : ∀ c ∈ gap, isBlank c = true) (opening : Quoting)
      (name : Word) (closing : Quoting) (hbehind : ∀ c ∈ behind, isBlank c = true) :
      IsKeyName (gap ++ (opening.mark ++ (name.chars ++ (closing.mark ++ behind))))

/-- A spelling of one of the two words for a key. -/
def IsKeyWord (text : List Char) : Prop := ∃ word ∈ ["KEY", "INDEX"], Spells word.toList text

/-- The name of a key behind its kind, with or without a word for a key in front of it. -/
inductive IsKeyTail : List Char → Prop
  | plain {name : List Char} (hname : IsKeyName name) : IsKeyTail name
  | worded {gap text name : List Char} (hne : gap ≠ []) (hgap : ∀ c ∈ gap, isBlank c = true)
      (htext : IsKeyWord text) (hname : IsKeyName name) : IsKeyTail (gap ++ (text ++ name))

/-- What stands in front of the list of a key. -/
inductive IsKeyHead : KeyKind → List Char → Prop
  | primary {front lead text gap type : List Char} (hfront : IsConstraint front)
      (hlead : IsLead "PRIMARY" lead) (htext : Spells "KEY".toList text)
      (hgap : ∀ c ∈ gap, isBlank c = true) (htype : IsUsing type) :
      IsKeyHead .primary (front ++ (lead ++ (text ++ (gap ++ type))))
  | unique {front text tail : List Char} (hfront : IsConstraint front)
      (htext : Spells "UNIQUE".toList text) (htail : IsKeyTail tail) :
      IsKeyHead .unique (front ++ (text ++ tail))
  | fulltext {text tail : List Char} (htext : Spells "FULLTEXT".toList text)
      (htail : IsKeyTail tail) : IsKeyHead .fulltext (text ++ tail)
  | index {text gap name : List Char} (htext : IsKeyWord text) (hne : gap ≠ [])
      (hgap : ∀ c ∈ gap, isBlank c = true) (hname : IsKeyName name) :
      IsKeyHead .index (text ++ (gap ++ name))

/-! ## Names in front of a list -/

/-- The name that a text is when a list follows it. -/
def nameInFront? (cs : List Char) : Option (Option (List Char)) :=
  if (keyName cs).2 = [] then some (keyName cs).1 else none

/-- What is behind an optional mark was there. -/
theorem mem_of_mem_optionalMark {marks cs : List Char} {c : Char}
    (h : c ∈ optionalMark marks cs) : c ∈ cs := by
  cases cs with
  | nil => exact h
  | cons d cs =>
      rw [optionalMark] at h
      split at h
      · exact List.mem_cons_of_mem _ h
      · exact h

/-- What is left of trimming was there. -/
theorem mem_of_mem_trimStart {cs : List Char} {c : Char} (h : c ∈ trimStart cs) : c ∈ cs :=
  (List.dropWhile_sublist isBlank).mem h

/-- What is behind the name of a key was there. -/
theorem mem_of_mem_keyName {cs : List Char} {c : Char} (h : c ∈ (keyName cs).2) : c ∈ cs := by
  unfold keyName at h
  split at h
  · rename_i name rest hread
    obtain ⟨⟨run, after⟩, hword, heq⟩ := Option.map_eq_some_iff.mp hread
    obtain ⟨-, rfl⟩ := Prod.mk.inj heq
    obtain ⟨hsplit, -, -⟩ := word_split hword
    have hafter : c ∈ optionalMark ['\x60', '"'] (trimStart cs) := by
      rw [hsplit]
      exact List.mem_append_right _ (mem_of_mem_optionalMark (mem_of_mem_trimStart h))
    exact mem_of_mem_trimStart (mem_of_mem_optionalMark hafter)
  · exact mem_of_mem_trimStart h

/-- What is behind blanks was there. -/
theorem mem_of_blanks {cs rest : List Char} (h : blanks cs = some rest) {c : Char}
    (hc : c ∈ rest) : c ∈ cs := by
  obtain ⟨gap, -, -, rfl, -⟩ := blanks_eq_some_iff.mp h
  exact List.mem_append_right _ hc

/-- In front of a list the name is read as on its own. -/
theorem keyTail_append_open {cs : List Char} (h : '(' ∉ cs) (opened : List Char) :
    keyTail (cs ++ '(' :: opened) = (nameInFront? cs).bind fun name =>
      (parenBody ('(' :: opened)).map fun body => (name, body) := by
  have hname : keyName (cs ++ '(' :: opened)
      = Prod.map id (· ++ '(' :: opened) (keyName cs) :=
    keyName_append_stop (by decide) (by decide) (fun hmem => absurd hmem (by decide))
  rw [keyTail_eq, hname, nameInFront?]
  simp only [Prod.map_fst, Prod.map_snd, id_eq]
  cases hrest : (keyName cs).2 with
  | nil => rfl
  | cons c rest =>
      have hc : c ≠ '(' := by
        rintro rfl
        exact h (mem_of_mem_keyName (by rw [hrest]; exact List.mem_cons_self))
      rw [if_neg (by simp)]
      simp [parenBody, symbol, hc]

/-- The name behind a kind, when a list follows it. -/
def tailInFront? (cs : List Char) : Option (Option (List Char)) :=
  (((blanks cs).bind (anyKeyword ["KEY", "INDEX"])).bind nameInFront?).or (nameInFront? cs)

theorem optionalKeyTail_append_open {cs : List Char} (h : '(' ∉ cs) (opened : List Char) :
    optionalKeyTail (cs ++ '(' :: opened) = (tailInFront? cs).bind fun name =>
      (parenBody ('(' :: opened)).map fun body => (name, body) := by
  have hkind : (blanks (cs ++ '(' :: opened)).bind (anyKeyword ["KEY", "INDEX"])
      = ((blanks cs).bind (anyKeyword ["KEY", "INDEX"])).map (· ++ '(' :: opened) :=
    ((blanks_carries (by decide) opened).bind
      (anyKeyword_carries (by decide) (by decide))) cs
  rw [optionalKeyTail, hkind, keyTail_append_open h, tailInFront?]
  cases hread : (blanks cs).bind (anyKeyword ["KEY", "INDEX"]) with
  | none => rfl
  | some left =>
      have hleft : '(' ∉ left := by
        intro hmem
        obtain ⟨rest, hrest, hword⟩ := Option.bind_eq_some_iff.mp hread
        obtain ⟨word, -, hword⟩ := List.exists_of_findSome?_eq_some hword
        obtain ⟨text, -, rfl⟩ := keyword_eq_some_iff.mp hword
        exact h (mem_of_blanks hrest (List.mem_append_right _ hmem))
      simp only [Option.map_some, Option.bind_some]
      rw [keyTail_append_open hleft]
      -- Without a list neither reading of the name is a key.
      cases parenBody ('(' :: opened) with
      | none => cases nameInFront? left <;> cases nameInFront? cs <;> rfl
      | some body => cases nameInFront? left <;> cases nameInFront? cs <;> rfl

/-- A quote is no parenthesis. -/
theorem Quoting.open_not_mem (quoting : Quoting) : '(' ∉ quoting.mark := by
  cases quoting <;> decide

/-- Blanks hold no parenthesis. -/
theorem open_not_mem_blank {gap : List Char} (hgap : ∀ c ∈ gap, isBlank c = true) : '(' ∉ gap :=
  fun hmem => absurd (hgap _ hmem) (by decide)

/-- A word holds no parenthesis. -/
theorem Word.open_not_mem (word : Word) : '(' ∉ word.chars :=
  fun hmem => absurd (word.isWord _ hmem) (by decide)

/-- The name of a key holds no parenthesis. -/
theorem IsKeyName.open_not_mem {cs : List Char} (h : IsKeyName cs) : '(' ∉ cs := by
  cases h with
  | blank hgap => exact open_not_mem_blank hgap
  | named hgap opening name closing hbehind =>
      simp [open_not_mem_blank hgap, open_not_mem_blank hbehind, opening.open_not_mem,
        closing.open_not_mem, name.open_not_mem]

/-- A keyword holds no parenthesis. -/
theorem Spells.open_not_mem {word : String} (hword : IsKeyword word) {text : List Char}
    (h : Spells word.toList text) : '(' ∉ text :=
  fun hmem => absurd (h.isWordChar hword _ hmem) (by decide)

/-- A word for a key holds no parenthesis. -/
theorem IsKeyWord.open_not_mem {text : List Char} (h : IsKeyWord text) : '(' ∉ text := by
  have hwords : ∀ word ∈ ["KEY", "INDEX"], IsKeyword word := by decide
  obtain ⟨word, hmem, hspells⟩ := h
  exact hspells.open_not_mem (hwords word hmem)

/-- What stands behind the kind of a key holds no parenthesis. -/
theorem IsKeyTail.open_not_mem {cs : List Char} (h : IsKeyTail cs) : '(' ∉ cs := by
  cases h with
  | plain hname => exact hname.open_not_mem
  | worded hne hgap htext hname =>
      simp [open_not_mem_blank hgap, htext.open_not_mem, hname.open_not_mem]

/-- Behind a name, its quote and blanks nothing is left. -/
theorem Quoting.read_blank (quoting : Quoting) {gap : List Char}
    (hgap : ∀ c ∈ gap, isBlank c = true) : isBoundary (quoting.mark ++ gap).head? = true ∧
      optionalMark ['\x60', '"'] (quoting.mark ++ gap) = gap := by
  cases quoting with
  | bare =>
      by_cases hne : gap = []
      · rw [hne]
        exact ⟨rfl, rfl⟩
      · have hend := boundary_of_blank hne hgap []
        have hmark := optionalMark_blank hne hgap []
        rw [List.append_nil] at hend hmark
        exact ⟨hend, hmark⟩
  | backtick => exact ⟨rfl, rfl⟩
  | double => exact ⟨rfl, rfl⟩

/-- A name in front of a list is read. -/
theorem IsKeyName.exists_name {cs : List Char} (h : IsKeyName cs) :
    ∃ name, nameInFront? cs = some name := by
  have hrest : (keyName cs).2 = [] := by
    cases h with
    | blank hgap =>
        rw [keyName, trimStart_of_blank hgap]
        rfl
    | @named gap behind hgap opening name closing hbehind =>
        have hopen : trimStart (gap ++ (opening.mark ++ (name.chars ++ (closing.mark ++ behind))))
            = opening.mark ++ (name.chars ++ (closing.mark ++ behind)) := by
          rw [trimStart_append_of_eq_nil (trimStart_of_blank hgap)]
          cases opening with
          | bare => exact name.trimStart_append _
          | backtick => rfl
          | double => rfl
        obtain ⟨hend, hclose⟩ := closing.read_blank hbehind
        rw [keyName, hopen, quotedName, opening.optionalMark_name, name.read hend, Option.map_some,
          hclose]
        exact trimStart_of_blank hbehind
  exact ⟨_, if_pos hrest⟩

theorem keyWords_apart : ["KEY", "INDEX"].Pairwise Apart := by decide

/-- A word for a key is read where it stands in front. -/
theorem keyWord_eq_some_iff {cs rest : List Char} :
    anyKeyword ["KEY", "INDEX"] cs = some rest ↔ ∃ text, IsKeyWord text ∧ cs = text ++ rest := by
  rw [anyKeyword_eq_some_iff keyWords_apart]
  constructor
  · rintro ⟨word, hmem, hword⟩
    obtain ⟨text, hspells, hcs⟩ := keyword_eq_some_iff.mp hword
    exact ⟨text, ⟨word, hmem, hspells⟩, hcs⟩
  · rintro ⟨text, ⟨word, hmem, hspells⟩, rfl⟩
    exact ⟨word, hmem, keyword_spelled hspells rest⟩

theorem IsKeyWord.read {text : List Char} (h : IsKeyWord text) (rest : List Char) :
    anyKeyword ["KEY", "INDEX"] (text ++ rest) = some rest :=
  keyWord_eq_some_iff.mpr ⟨text, h, rfl⟩

/-- A word for a key starts with no blank. -/
theorem IsKeyWord.trimStart_eq {text : List Char} (h : IsKeyWord text) (rest : List Char) :
    trimStart (text ++ rest) = text ++ rest := by
  have hwords : ∀ word ∈ ["KEY", "INDEX"], IsKeyword word ∧ word.toList ≠ [] := by decide
  obtain ⟨word, hmem, hspells⟩ := h
  exact trimStart_spelling (hwords word hmem).1 (hwords word hmem).2 hspells rest

/-- A name with an optional word in front of it is read. -/
theorem IsKeyTail.exists_name {cs : List Char} (h : IsKeyTail cs) :
    ∃ name, tailInFront? cs = some name := by
  cases h with
  | plain hname =>
      obtain ⟨name, hread⟩ := hname.exists_name
      rw [tailInFront?, hread]
      cases ((blanks cs).bind (anyKeyword ["KEY", "INDEX"])).bind nameInFront? with
      | none => exact ⟨name, rfl⟩
      | some other => exact ⟨other, rfl⟩
  | worded hne hgap htext hname =>
      obtain ⟨name, hread⟩ := hname.exists_name
      refine ⟨name, ?_⟩
      rw [tailInFront?, blanks_append hne hgap, htext.trimStart_eq, Option.bind_some, htext.read,
        Option.bind_some, hread]
      rfl

/-! ## Keys behind their heads -/

/-- Without its keyword there is no constraint. -/
theorem afterConstraint_eq_self {cs : List Char} (h : keyword "CONSTRAINT" cs = none) :
    afterConstraint cs = cs := by
  rw [afterConstraint, h]
  rfl

/-- The name of a constraint is read up to the word behind it. -/
theorem IsConstraint.read {front rest : List Char} (h : IsConstraint front)
    (hrest : keyword "CONSTRAINT" rest = none) (hflush : Flush rest) :
    afterConstraint (front ++ rest) = rest := by
  cases h with
  | absent => exact afterConstraint_eq_self hrest
  | @named lead name gap hlead hname hchars hne hgap =>
      obtain ⟨c, more, hcons⟩ := List.exists_cons_of_ne_nil hname
      have hflushName : Flush (name ++ (gap ++ rest)) := by
        rw [hcons, List.cons_append, flush_cons]
        exact hchars c (by rw [hcons]; exact List.mem_cons_self)
      have hread : (keyword "CONSTRAINT" (lead ++ (name ++ (gap ++ rest)))).bind blanks
          = some (name ++ (gap ++ rest)) :=
        keyword_blanks_eq_some_iff.mpr ⟨lead, hlead, rfl, hflushName⟩
      have hstop : ∀ d, (gap ++ rest).head? = some d → (!isBlank d) = false := by
        obtain ⟨b, others, hothers⟩ := List.exists_cons_of_ne_nil hne
        intro d hd
        rw [hothers] at hd
        cases hd
        simp [hgap b (by rw [hothers]; exact List.mem_cons_self)]
      have hdrop : (name ++ (gap ++ rest)).dropWhile (!isBlank ·) = gap ++ rest :=
        (takeWhile_append_stop (by simpa using hchars) hstop).2
      have hlength : ¬(gap ++ rest).length = (name ++ (gap ++ rest)).length := by
        have hpos := List.length_pos_iff.mpr hname
        have hsum : (name ++ (gap ++ rest)).length = name.length + (gap ++ rest).length :=
          List.length_append
        omega
      simp only [afterConstraint, Option.bind_eq_bind, ← Option.bind_assoc, List.append_assoc,
        hread, Option.bind_some]
      rw [hdrop, if_neg hlength, blanks_append hne hgap, hflush.trimStart_eq]
      rfl

/-- The words that a key starts with behind its constraint. -/
def keyLeaders : List String := ["PRIMARY", "UNIQUE", "FULLTEXT", "KEY", "INDEX"]

/-- No word that leads a key starts as another or as a constraint. -/
theorem keyLeaders_apart : ∀ word ∈ keyLeaders, IsKeyword word ∧ word.toList ≠ [] ∧
    Apart word "CONSTRAINT" ∧ Apart "CONSTRAINT" word ∧
      ∀ other ∈ keyLeaders, other ≠ word → Apart other word := by
  decide

/-- **The first word decides the kind.**  It is what stands behind the constraint, and no other of
the words is read there or in front of the constraint. -/
theorem IsConstraint.leads {word : String} (hword : word ∈ keyLeaders) {front text : List Char}
    (hfront : IsConstraint front) (htext : Spells word.toList text) (rest : List Char) :
    afterConstraint (front ++ (text ++ rest)) = text ++ rest ∧ ∀ other ∈ keyLeaders, other ≠ word →
      keyword other (front ++ (text ++ rest)) = none ∧ keyword other (text ++ rest) = none := by
  obtain ⟨hkey, hne, -, hconstraint, hothers⟩ := keyLeaders_apart word hword
  have hread := keyword_spelled htext rest
  refine ⟨hfront.read (hconstraint.keyword_eq_none hread) (flush_spelled hkey hne htext rest), ?_⟩
  intro other hother hne
  have hnone := (hothers other hother hne).keyword_eq_none hread
  refine ⟨?_, hnone⟩
  cases hfront with
  | absent => exact hnone
  | named hlead _ _ _ _ =>
      obtain ⟨letters, blank, hletters, -, -, rfl⟩ := hlead
      simp only [List.append_assoc]
      exact (keyLeaders_apart other hother).2.2.1.keyword_eq_none (keyword_spelled hletters _)

/-- No primary key without its word. -/
theorem primaryKey_eq_none {part : List Char}
    (h : keyword "PRIMARY" (afterConstraint part) = none) : primaryKey part = none := by
  rw [primaryKey_eq, h]
  rfl

/-- No unique key without its word. -/
theorem uniqueKey_eq_none {part : List Char} (h : keyword "UNIQUE" (afterConstraint part) = none) :
    uniqueKey part = none := by
  rw [uniqueKey, h]
  rfl

/-- No fulltext key without its word. -/
theorem fulltextKey_eq_none {part : List Char} (h : keyword "FULLTEXT" part = none) :
    fulltextKey part = none := by
  rw [fulltextKey, h]
  rfl

/-- No plain key without a word for a key. -/
theorem plainKey_eq_none {part : List Char} (hkey : keyword "KEY" part = none)
    (hindex : keyword "INDEX" part = none) : plainKey part = none := by
  have hwords : anyKeyword ["KEY", "INDEX"] part = none := by
    simp only [anyKeyword, List.findSome?_cons, hkey, hindex, List.findSome?_nil]
  rw [plainKey, hwords]
  rfl

/-- The head of a key: what is read behind it is the list, whatever that is. -/
def ReadsList (kind : KeyKind) (head : List Char) (name : Option (List Char)) : Prop :=
  ∀ opened, parseKey (head ++ '(' :: opened)
    = (parenBody ('(' :: opened)).map fun body => keyOf kind (name, body)

/-- The list of a primary key is reached behind the choice of an index type. -/
theorem IsUsing.read {type gap : List Char} (h : IsUsing type) (hgap : ∀ c ∈ gap, isBlank c = true)
    (opened : List Char) : (afterUsing (trimStart (gap ++ (type ++ '(' :: opened)))).getD
      (trimStart (gap ++ (type ++ '(' :: opened))) = '(' :: opened := by
  have hopen : Flush ('(' :: opened) := by
    rw [flush_cons]
    decide
  cases h with
  | absent =>
      rw [List.nil_append, trimStart_run hgap hopen]
      have hnone : keyword "USING" ('(' :: opened) = none := rfl
      rw [afterUsing, hnone]
      rfl
  | @named lead behind hlead type hbehind =>
      have hlead' := hlead
      obtain ⟨letters, blank, hletters, -, -, hsplit⟩ := hlead'
      have hstart : Flush (lead ++ (type.chars ++ (behind ++ '(' :: opened))) := by
        rw [hsplit, List.append_assoc]
        exact flush_spelled (by decide) (by decide) hletters _
      have hread : (keyword "USING" (lead ++ (type.chars ++ (behind ++ '(' :: opened)))).bind
          blanks = some (type.chars ++ (behind ++ '(' :: opened)) := by
        refine keyword_blanks_eq_some_iff.mpr ⟨lead, hlead, rfl, ?_⟩
        have hword := flush_trimStart (type.chars ++ (behind ++ '(' :: opened))
        rwa [type.trimStart_append] at hword
      have hend : isBoundary (behind ++ '(' :: opened).head? = true := by
        by_cases hne : behind = []
        · rw [hne]
          rfl
        · exact boundary_of_blank hne hbehind _
      simp only [List.append_assoc]
      rw [trimStart_run hgap hstart, afterUsing, hread, Option.bind_some, type.read hend,
        Option.map_some, trimStart_run hbehind hopen]
      rfl

/-- The head of a primary key is read. -/
theorem readsList_primary {front lead text gap type : List Char} (hfront : IsConstraint front)
    (hlead : IsLead "PRIMARY" lead) (htext : Spells "KEY".toList text)
    (hgap : ∀ c ∈ gap, isBlank c = true) (htype : IsUsing type) :
    ReadsList .primary (front ++ (lead ++ (text ++ (gap ++ type)))) (some "PRIMARY".toList) := by
  intro opened
  obtain ⟨letters, blank, hletters, hblankNe, hblank, rfl⟩ := hlead
  obtain ⟨hafter, hothers⟩ := hfront.leads (by decide) hletters
    (blank ++ (text ++ (gap ++ (type ++ '(' :: opened))))
  have hother := fun other hmem hne => (hothers other hmem hne).1
  have hflush : Flush (text ++ (gap ++ (type ++ '(' :: opened))) :=
    flush_spelled (by decide) (by decide) htext _
  have hspot := htype.read hgap opened
  have hprimary : primaryKey (front ++ (letters ++ (blank ++ (text ++ (gap ++ (type ++ '(' ::
      opened)))))) = (parenBody ('(' :: opened)).map fun body =>
        keyOf .primary (some "PRIMARY".toList, body) := by
    rw [primaryKey_eq, hafter, keyword_spelled hletters, Option.bind_some,
      blanks_append hblankNe hblank, hflush.trimStart_eq, Option.bind_some, keyword_spelled htext,
      Option.bind_some, hspot]
    rfl
  have hunique : keyword "UNIQUE" (letters ++ (blank ++ (text ++ (gap ++ (type ++ '(' :: opened)))))
      = none := (hothers "UNIQUE" (by decide) (by decide)).2
  simp only [List.append_assoc]
  rw [parseKey, hprimary, uniqueKey_eq_none (by rw [hafter]; exact hunique),
    fulltextKey_eq_none (hother _ (by decide) (by decide)),
    plainKey_eq_none (hother _ (by decide) (by decide)) (hother _ (by decide) (by decide))]
  cases parenBody ('(' :: opened) <;> rfl

/-- The head of a unique key is read. -/
theorem readsList_unique {front text tail : List Char} (hfront : IsConstraint front)
    (htext : Spells "UNIQUE".toList text) (htail : IsKeyTail tail) :
    ∃ name, ReadsList .unique (front ++ (text ++ tail)) name := by
  obtain ⟨name, hname⟩ := htail.exists_name
  refine ⟨name, fun opened => ?_⟩
  obtain ⟨hafter, hothers⟩ := hfront.leads (by decide) htext (tail ++ '(' :: opened)
  have hother := fun other hmem hne => (hothers other hmem hne).1
  have hunique : uniqueKey (front ++ (text ++ (tail ++ '(' :: opened)))
      = (parenBody ('(' :: opened)).map fun body => keyOf .unique (name, body) := by
    rw [uniqueKey, hafter, keyword_spelled htext]
    simp only [Option.bind_eq_bind, Option.bind_some]
    rw [optionalKeyTail_append_open htail.open_not_mem, hname]
    cases parenBody ('(' :: opened) <;> rfl
  have hprimary : keyword "PRIMARY" (text ++ (tail ++ '(' :: opened)) = none :=
    (hothers "PRIMARY" (by decide) (by decide)).2
  rw [List.append_assoc, List.append_assoc, parseKey, hunique,
    primaryKey_eq_none (by rw [hafter]; exact hprimary),
    fulltextKey_eq_none (hother _ (by decide) (by decide)),
    plainKey_eq_none (hother _ (by decide) (by decide)) (hother _ (by decide) (by decide))]
  cases parenBody ('(' :: opened) <;> rfl

/-- The head of a fulltext key is read. -/
theorem readsList_fulltext {text tail : List Char} (htext : Spells "FULLTEXT".toList text)
    (htail : IsKeyTail tail) : ∃ name, ReadsList .fulltext (text ++ tail) name := by
  obtain ⟨name, hname⟩ := htail.exists_name
  refine ⟨name, fun opened => ?_⟩
  obtain ⟨hafter, hothers⟩ := IsConstraint.absent.leads (by decide) htext (tail ++ '(' :: opened)
  rw [List.nil_append] at hafter
  have hother := fun other hmem hne => (hothers other hmem hne).2
  have hfulltext : fulltextKey (text ++ (tail ++ '(' :: opened))
      = (parenBody ('(' :: opened)).map fun body => keyOf .fulltext (name, body) := by
    rw [fulltextKey, keyword_spelled htext]
    simp only [Option.bind_eq_bind, Option.bind_some]
    rw [optionalKeyTail_append_open htail.open_not_mem, hname]
    cases parenBody ('(' :: opened) <;> rfl
  rw [List.append_assoc, parseKey, hfulltext,
    primaryKey_eq_none (by rw [hafter]; exact hother _ (by decide) (by decide)),
    uniqueKey_eq_none (by rw [hafter]; exact hother _ (by decide) (by decide)),
    plainKey_eq_none (hother _ (by decide) (by decide)) (hother _ (by decide) (by decide))]
  cases parenBody ('(' :: opened) <;> rfl

/-- Blanks in front of the name are not seen. -/
theorem keyTail_trimStart (cs : List Char) : keyTail (trimStart cs) = keyTail cs := by
  rw [keyTail, keyTail, trimStart_trimStart]

/-- The head of a plain key is read. -/
theorem readsList_index {text gap name : List Char} (htext : IsKeyWord text) (hne : gap ≠ [])
    (hgap : ∀ c ∈ gap, isBlank c = true) (hname : IsKeyName name) :
    ∃ name', ReadsList .index (text ++ (gap ++ name)) name' := by
  obtain ⟨name', hread⟩ := hname.exists_name
  refine ⟨name', fun opened => ?_⟩
  have hword := htext
  obtain ⟨word, hmem, hspells⟩ := hword
  have hleaders : ∀ word ∈ ["KEY", "INDEX"], word ∈ keyLeaders ∧
      ∀ other ∈ ["PRIMARY", "UNIQUE", "FULLTEXT"], other ∈ keyLeaders ∧ other ≠ word := by decide
  obtain ⟨hleader, hnot⟩ := hleaders word hmem
  obtain ⟨hafter, hothers⟩ := IsConstraint.absent.leads hleader hspells
    (gap ++ (name ++ '(' :: opened))
  rw [List.nil_append] at hafter
  have hother : ∀ other ∈ ["PRIMARY", "UNIQUE", "FULLTEXT"],
      keyword other (text ++ (gap ++ (name ++ '(' :: opened))) = none := fun other hmem =>
    (hothers other (hnot other hmem).1 (hnot other hmem).2).2
  have hindex : plainKey (text ++ (gap ++ (name ++ '(' :: opened)))
      = (parenBody ('(' :: opened)).map fun body => keyOf .index (name', body) := by
    rw [plainKey, htext.read]
    simp only [Option.bind_eq_bind, Option.bind_some]
    rw [blanks_append hne hgap, Option.bind_some, keyTail_trimStart,
      keyTail_append_open hname.open_not_mem, hread]
    cases parenBody ('(' :: opened) <;> rfl
  simp only [List.append_assoc]
  rw [parseKey, hindex, primaryKey_eq_none (by rw [hafter]; exact hother _ (by decide)),
    uniqueKey_eq_none (by rw [hafter]; exact hother _ (by decide)),
    fulltextKey_eq_none (hother _ (by decide))]
  rfl

/-- **A key is read from the list behind its head.** -/
theorem IsKeyHead.exists_name (h : IsKeyHead kind head) : ∃ name, ReadsList kind head name := by
  cases h with
  | primary hfront hlead htext hgap htype =>
      exact ⟨_, readsList_primary hfront hlead htext hgap htype⟩
  | unique hfront htext htail => exact readsList_unique hfront htext htail
  | fulltext htext htail => exact readsList_fulltext htext htail
  | index htext hne hgap hname => exact readsList_index htext hne hgap hname

/-! ## Every key has a head -/

/-- An optional mark is one of the quotings. -/
theorem exists_mark (cs : List Char) :
    ∃ quoting : Quoting, cs = quoting.mark ++ optionalMark ['\x60', '"'] cs := by
  cases cs with
  | nil => exact ⟨.bare, rfl⟩
  | cons c cs =>
      by_cases hback : c = '\x60'
      · exact ⟨.backtick, by simp [Quoting.mark, optionalMark, hback]⟩
      · by_cases hdouble : c = '"'
        · exact ⟨.double, by simp [Quoting.mark, optionalMark, hdouble]⟩
        · exact ⟨.bare, by simp [Quoting.mark, optionalMark, hback, hdouble]⟩

/-- A list starts with its parenthesis. -/
theorem exists_open_of_parenBody {cs body : List Char} (h : parenBody cs = some body) :
    ∃ opened, cs = '(' :: opened := by
  obtain ⟨opened, hopened, -⟩ := Option.bind_eq_some_iff.mp h
  exact ⟨opened, symbol_eq_some_iff.mp hopened⟩

/-- What is read in front of a list is a name. -/
theorem exists_keyName {cs opened : List Char} (h : (keyName cs).2 = '(' :: opened) :
    ∃ name, IsKeyName name ∧ cs = name ++ '(' :: opened := by
  obtain ⟨gap, hgap, hcs⟩ := exists_run cs
  unfold keyName at h
  split at h
  · rename_i name rest hread
    obtain ⟨⟨run, after⟩, hword, heq⟩ := Option.map_eq_some_iff.mp hread
    obtain ⟨-, rfl⟩ := Prod.mk.inj heq
    obtain ⟨hsplit, hne, hrun⟩ := word_split hword
    obtain ⟨opening, hopening⟩ := exists_mark (trimStart cs)
    obtain ⟨closing, hclosing⟩ := exists_mark after
    obtain ⟨behind, hbehind, hafter⟩ := exists_run (optionalMark ['\x60', '"'] after)
    refine ⟨_, .named hgap opening ⟨run, hne, hrun⟩ closing hbehind, ?_⟩
    replace h : trimStart (optionalMark ['\x60', '"'] after) = '(' :: opened := h
    rw [hcs, hopening, hsplit, hclosing, hafter, h]
    simp
  · refine ⟨gap, .blank hgap, ?_⟩
    replace h : trimStart cs = '(' :: opened := h
    rw [hcs, h]

/-- What is read as a key behind its kind has a name and a list. -/
theorem exists_opened_of_keyTail {cs : List Char} {found : Option (List Char) × List Char}
    (h : keyTail cs = some found) :
    ∃ name opened, IsKeyName name ∧ cs = name ++ '(' :: opened := by
  rw [keyTail_eq] at h
  obtain ⟨body, hbody, -⟩ := Option.map_eq_some_iff.mp h
  obtain ⟨opened, hopened⟩ := exists_open_of_parenBody hbody
  obtain ⟨name, hname, hcs⟩ := exists_keyName hopened
  exact ⟨name, opened, hname, hcs⟩

theorem exists_opened_of_optionalKeyTail {cs : List Char} {found : Option (List Char) × List Char}
    (h : optionalKeyTail cs = some found) :
    ∃ tail opened, IsKeyTail tail ∧ cs = tail ++ '(' :: opened := by
  rcases Option.or_eq_some_iff.mp h with hworded | ⟨-, hplain⟩
  · obtain ⟨left, hleft, htail⟩ := Option.bind_eq_some_iff.mp hworded
    obtain ⟨behind, hbehind, hword⟩ := Option.bind_eq_some_iff.mp hleft
    obtain ⟨gap, hne, hgap, rfl, -⟩ := blanks_eq_some_iff.mp hbehind
    obtain ⟨text, htext, rfl⟩ := keyWord_eq_some_iff.mp hword
    obtain ⟨name, opened, hname, rfl⟩ := exists_opened_of_keyTail htail
    exact ⟨_, opened, .worded hne hgap htext hname, by simp⟩
  · obtain ⟨name, opened, hname, hcs⟩ := exists_opened_of_keyTail hplain
    exact ⟨name, opened, .plain hname, hcs⟩

/-- What is passed over in front of a key is a constraint or nothing. -/
theorem exists_constraint (cs : List Char) :
    ∃ front, IsConstraint front ∧ cs = front ++ afterConstraint cs := by
  have habsent : afterConstraint cs = cs → ∃ front, IsConstraint front ∧
      cs = front ++ afterConstraint cs := fun hself => ⟨[], .absent, hself.symm⟩
  simp only [afterConstraint, Option.bind_eq_bind, ← Option.bind_assoc] at habsent ⊢
  cases hread : (keyword "CONSTRAINT" cs).bind blanks with
  | none =>
      rw [hread] at habsent
      exact habsent rfl
  | some named =>
      obtain ⟨lead, hlead, hcs, -⟩ := keyword_blanks_eq_some_iff.mp hread
      rw [hread] at habsent
      simp only [Option.bind_some] at habsent ⊢
      split at habsent
      · rename_i hempty
        rw [if_pos hempty]
        exact habsent rfl
      · rename_i hname
        rw [if_neg hname]
        cases hblanks : blanks (named.dropWhile (!isBlank ·)) with
        | none =>
            rw [hblanks] at habsent
            exact habsent rfl
        | some rest =>
            obtain ⟨gap, hne, hgap, hdrop, -⟩ := blanks_eq_some_iff.mp hblanks
            have hsplit : named.takeWhile (!isBlank ·) ++ named.dropWhile (!isBlank ·) = named :=
              List.takeWhile_append_dropWhile
            refine ⟨lead ++ (named.takeWhile (!isBlank ·) ++ gap), .named hlead ?_ ?_ hne hgap, ?_⟩
            · intro hnil
              rw [hnil, List.nil_append] at hsplit
              exact hname (congrArg List.length hsplit)
            · intro c hc
              simpa using List.mem_takeWhile_imp hc
            · rw [Option.getD_some, List.append_assoc, List.append_assoc, ← hdrop, hsplit]
              exact hcs

/-- What is passed over in front of a list is the choice of an index type or nothing. -/
theorem exists_using {cs opened : List Char}
    (h : (afterUsing (trimStart cs)).getD (trimStart cs) = '(' :: opened) :
    ∃ gap type, (∀ c ∈ gap, isBlank c = true) ∧ IsUsing type ∧
      cs = gap ++ (type ++ '(' :: opened) := by
  obtain ⟨gap, hgap, hcs⟩ := exists_run cs
  cases hread : afterUsing (trimStart cs) with
  | none =>
      rw [hread] at h
      refine ⟨gap, [], hgap, .absent, ?_⟩
      rw [List.nil_append, ← h]
      exact hcs
  | some rest =>
      rw [hread] at h
      obtain ⟨named, hnamed, hword⟩ := Option.bind_eq_some_iff.mp hread
      obtain ⟨lead, hlead, hstart, -⟩ := keyword_blanks_eq_some_iff.mp hnamed
      obtain ⟨⟨type, after⟩, htype, hrest⟩ := Option.map_eq_some_iff.mp hword
      obtain ⟨hsplit, hne, hchars⟩ := word_split htype
      obtain ⟨behind, hbehind, hafter⟩ := exists_run after
      refine ⟨gap, _, hgap, .named hlead ⟨type, hne, hchars⟩ hbehind, ?_⟩
      have hopened : trimStart after = '(' :: opened := hrest.trans h
      rw [hcs, hstart, hsplit, hafter, hopened]
      simp

variable {part : List Char} {key : Key}

/-- What is read as a primary key has the head of one. -/
theorem exists_head_of_primaryKey (h : primaryKey part = some key) :
    ∃ head opened, IsKeyHead key.kind head ∧ part = head ++ '(' :: opened := by
  obtain ⟨front, hfront, hpart⟩ := exists_constraint part
  rw [primaryKey_eq] at h
  obtain ⟨left, hleft, hkey⟩ := Option.bind_eq_some_iff.mp h
  obtain ⟨mid, hmid, hword⟩ := Option.bind_eq_some_iff.mp hleft
  obtain ⟨lead, hlead, hafter, -⟩ := keyword_blanks_eq_some_iff.mp hmid
  obtain ⟨text, htext, rfl⟩ := keyword_eq_some_iff.mp hword
  obtain ⟨body, hbody, rfl⟩ := Option.map_eq_some_iff.mp hkey
  obtain ⟨opened, hopened⟩ := exists_open_of_parenBody hbody
  obtain ⟨gap, type, hgap, htype, rfl⟩ := exists_using hopened
  refine ⟨_, opened, .primary hfront hlead htext hgap htype, ?_⟩
  rw [hpart, hafter]
  simp

/-- What is read as a unique key has the head of one. -/
theorem exists_head_of_uniqueKey (h : uniqueKey part = some key) :
    ∃ head opened, IsKeyHead key.kind head ∧ part = head ++ '(' :: opened := by
  obtain ⟨front, hfront, hpart⟩ := exists_constraint part
  obtain ⟨left, hleft, hkey⟩ := Option.bind_eq_some_iff.mp h
  obtain ⟨found, hfound, hmade⟩ := Option.bind_eq_some_iff.mp hkey
  obtain ⟨text, htext, hafter⟩ := keyword_eq_some_iff.mp hleft
  obtain ⟨tail, opened, htail, rfl⟩ := exists_opened_of_optionalKeyTail hfound
  rw [← Option.some.inj hmade]
  refine ⟨_, opened, .unique hfront htext htail, ?_⟩
  rw [hpart, hafter]
  simp

/-- What is read as a fulltext key has the head of one. -/
theorem exists_head_of_fulltextKey (h : fulltextKey part = some key) :
    ∃ head opened, IsKeyHead key.kind head ∧ part = head ++ '(' :: opened := by
  obtain ⟨left, hleft, hkey⟩ := Option.bind_eq_some_iff.mp h
  obtain ⟨found, hfound, hmade⟩ := Option.bind_eq_some_iff.mp hkey
  obtain ⟨text, htext, rfl⟩ := keyword_eq_some_iff.mp hleft
  obtain ⟨tail, opened, htail, rfl⟩ := exists_opened_of_optionalKeyTail hfound
  rw [← Option.some.inj hmade]
  exact ⟨_, opened, .fulltext htext htail, by simp⟩

/-- What is read as a plain key has the head of one. -/
theorem exists_head_of_plainKey (h : plainKey part = some key) :
    ∃ head opened, IsKeyHead key.kind head ∧ part = head ++ '(' :: opened := by
  obtain ⟨left, hleft, hkey⟩ := Option.bind_eq_some_iff.mp h
  obtain ⟨behind, hbehind, hnamed⟩ := Option.bind_eq_some_iff.mp hkey
  obtain ⟨found, hfound, hmade⟩ := Option.bind_eq_some_iff.mp hnamed
  obtain ⟨text, htext, rfl⟩ := keyWord_eq_some_iff.mp hleft
  obtain ⟨gap, hne, hgap, rfl, -⟩ := blanks_eq_some_iff.mp hbehind
  obtain ⟨name, opened, hname, rfl⟩ := exists_opened_of_keyTail hfound
  rw [← Option.some.inj hmade]
  exact ⟨_, opened, .index htext hne hgap hname, by simp⟩

/-- **Every part that is a key has a head in front of its list.** -/
theorem exists_keyHead (h : parseKey part = some key) :
    ∃ head opened, IsKeyHead key.kind head ∧ part = head ++ '(' :: opened := by
  rcases Option.or_eq_some_iff.mp h with hprimary | ⟨-, h⟩
  · exact exists_head_of_primaryKey hprimary
  rcases Option.or_eq_some_iff.mp h with hunique | ⟨-, h⟩
  · exact exists_head_of_uniqueKey hunique
  rcases Option.or_eq_some_iff.mp h with hfulltext | ⟨-, hplain⟩
  · exact exists_head_of_fulltextKey hfulltext
  · exact exists_head_of_plainKey hplain

/-- The primary key of a table is read behind the first primary head among the parts of its body. -/
theorem exists_primaryHead {t : Table} {parts : List (List Char)}
    (hkeys : t.keys = bodyKeys parts) (h : t.primaryKey? = some key) :
    ∃ front head opened behind, parts = front ++ (head ++ '(' :: opened) :: behind ∧
      IsKeyHead .primary head ∧ parseKey (head ++ '(' :: opened) = some key ∧
      ∀ part ∈ front, ∀ other, parseKey part = some other → other.kind ≠ .primary := by
  obtain ⟨hkind, earlier, later, hsplit, hearlier⟩ := Table.primaryKey?_eq_some_iff.mp h
  rw [hkeys, bodyKeys, List.filterMap_eq_append_iff] at hsplit
  obtain ⟨front, rest, rfl, rfl, hrest⟩ := hsplit
  obtain ⟨columns, part, behind, rfl, hcolumns, hpart, -⟩ := List.filterMap_eq_cons_iff.mp hrest
  obtain ⟨head, opened, hhead, rfl⟩ := exists_keyHead hpart
  refine ⟨front ++ columns, head, opened, behind, by simp, hkind ▸ hhead, hpart, ?_⟩
  intro part hmem other hother
  rcases List.mem_append.mp hmem with hfront | hcolumn
  · exact hearlier other (List.mem_filterMap.mpr ⟨part, hfront, hother⟩)
  · rw [hcolumns part hcolumn] at hother
    cases hother

/-! ## Options -/

/-- A list runs to the last closing parenthesis. -/
theorem parenBody_of_last {body tail : List Char} (htail : ')' ∉ tail) :
    parenBody ('(' :: (body ++ ')' :: tail)) = if body = [] then none else some body := by
  have hlast : splitLast? ')' (body ++ ')' :: tail) = some (body, tail) :=
    splitLast?_eq_some_iff.mpr ⟨rfl, htail⟩
  simp [parenBody, symbol, hlast]

/-- A list that holds something is read. -/
theorem parenBody_of_ne_nil {body tail : List Char} (hne : body ≠ []) (htail : ')' ∉ tail) :
    parenBody ('(' :: (body ++ ')' :: tail)) = some body := by
  rw [parenBody_of_last htail, if_neg hne]

namespace ReadsList

variable {name : Option (List Char)} {opened list options mid tail : List Char}

/-- The key of a closed list that holds something. -/
theorem closed (h : ReadsList kind head name) (hne : list ≠ []) :
    parseKey (head ++ '(' :: (list ++ [')'])) = some (keyOf kind (name, list)) := by
  rw [h, parenBody_of_ne_nil hne List.not_mem_nil]
  rfl

/-- With a closing parenthesis in the options, the list runs to the last of them. -/
theorem overrun (h : ReadsList kind head name)
    (hlist : closingParen opened = some (list, mid ++ ')' :: tail)) (htail : ')' ∉ tail) :
    parseKey (head ++ '(' :: opened) = some (keyOf kind (name, list ++ ')' :: mid)) := by
  have htext : opened = (list ++ ')' :: mid) ++ ')' :: tail := by
    rw [closingParen_split hlist]
    simp
  rw [h, htext, parenBody_of_ne_nil (by simp) htail]
  rfl

/-- Options without a closing parenthesis leave the key as it is. -/
theorem unchanged (h : ReadsList kind head name)
    (hlist : closingParen opened = some (list, options)) (hout : ')' ∉ options) :
    parseKey (head ++ '(' :: opened) = parseKey (head ++ '(' :: (list ++ [')'])) := by
  rw [h, h, closingParen_split hlist, parenBody_of_last hout, parenBody_of_last List.not_mem_nil]

/-- A closing parenthesis in the options gives another key. -/
theorem changed (h : ReadsList kind head name)
    (hlist : closingParen opened = some (list, mid ++ ')' :: tail)) (htail : ')' ∉ tail) :
    parseKey (head ++ '(' :: opened) ≠ parseKey (head ++ '(' :: (list ++ [')'])) := by
  intro hsame
  rw [h.overrun hlist htail, h, parenBody_of_last List.not_mem_nil] at hsame
  split at hsame
  · cases hsame
  · exact keyColumns_append_ne (run_of_closingParen hlist) mid
      (congrArg Key.columns (Option.some.inj hsame))

end ReadsList

/-- **Options and the key in front of them.**  A part that is a key is a head of the key's kind with
an opened list behind it.  Behind any head, the options of a closed list change nothing about the
key exactly if no closing parenthesis stands in them, quoted or not.  The key that is read from the
list alone is of the kind of its head, and its columns are the entries of the list without sort
order, size and quotes.  With a closing parenthesis in the options, the key is that of a longer
list: the one up to the last of these parentheses. -/
theorem parseKey_options (part : List Char) :
    (∀ key, parseKey part = some key →
      ∃ head opened, IsKeyHead key.kind head ∧ part = head ++ '(' :: opened) ∧
    ∀ kind head opened list options, IsKeyHead kind head → part = head ++ '(' :: opened →
      closingParen opened = some (list, options) →
      (parseKey part = parseKey (head ++ '(' :: (list ++ [')'])) ↔ ')' ∉ options) ∧
      (list ≠ [] → ∃ key columns, parseKey (head ++ '(' :: (list ++ [')'])) = some key ∧
        key.kind = kind ∧ List.Forall₂ EntryColumn (splitTopLevel list) columns ∧
        key.columns = (columns.filter (!·.isEmpty)).map String.ofList) ∧
      ∀ mid tail, options = mid ++ ')' :: tail → ')' ∉ tail →
        parseKey part = parseKey (head ++ '(' :: ((list ++ ')' :: mid) ++ [')'])) := by
  refine ⟨fun key => exists_keyHead, ?_⟩
  rintro kind head opened list options hhead rfl hlist
  obtain ⟨name, hread⟩ := hhead.exists_name
  refine ⟨⟨fun hsame hmem => ?_, hread.unchanged hlist⟩, fun hne => ?_, ?_⟩
  · cases hsplit : splitLast? ')' options with
    | none => exact splitLast?_eq_none_iff.mp hsplit hmem
    | some parts =>
        obtain ⟨hoptions, htail⟩ := splitLast?_eq_some_iff.mp hsplit
        exact hread.changed (hoptions ▸ hlist) htail hsame
  · obtain ⟨columns, hentries, hcolumns⟩ := keyColumns_entries list
    exact ⟨keyOf kind (name, list), columns, hread.closed hne, rfl, hentries, hcolumns⟩
  · rintro mid tail rfl htail
    rw [hread.overrun hlist htail, hread.closed (by simp)]

/-- A named key with an index type and a comment behind its list, and one whose comment holds a
closing parenthesis. -/
theorem parseKey_options_comment :
    let head := "CONSTRAINT c UNIQUE KEY \x60k\x60 ".toList
    let list := "\x60a\x60(10) DESC, b".toList
    let options := " USING BTREE COMMENT 'x, (y'".toList
    ((∃ front opened, IsKeyHead .unique front ∧
        head ++ '(' :: (list ++ ')' :: options) = front ++ '(' :: opened) ∧
      IsKeyHead .unique head ∧ closingParen (list ++ ')' :: options) = some (list, options) ∧
      ')' ∉ options ∧ list ≠ [] ∧
      parseKey (head ++ '(' :: (list ++ ')' :: options))
        = parseKey (head ++ '(' :: (list ++ [')'])) ∧
      ∃ key columns, parseKey (head ++ '(' :: (list ++ [')'])) = some key ∧ key.kind = .unique ∧
        List.Forall₂ EntryColumn (splitTopLevel list) columns ∧
        key.columns = (columns.filter (!·.isEmpty)).map String.ofList) ∧
    parseKey (head ++ '(' :: (list ++ ')' :: options))
      = some { name := "k", kind := .unique, columns := ["a", "b"] } ∧
    (IsKeyHead .index "KEY k ".toList ∧
      closingParen "x) COMMENT 'n)'".toList = some ("x".toList, " COMMENT 'n)'".toList) ∧
      parseKey ("KEY k ".toList ++ '(' :: "x) COMMENT 'n)'".toList)
        = parseKey ("KEY k ".toList ++
          '(' :: (("x".toList ++ ')' :: " COMMENT 'n".toList) ++ [')']))) := by
  intro head list options
  have hblank : ∀ c ∈ [' '], isBlank c = true := by decide
  have hnil : ∀ c ∈ ([] : List Char), isBlank c = true := by decide
  have hc : ∀ c ∈ ['c'], isBlank c = false := by decide
  have hword : IsKeyWord "KEY".toList := ⟨"KEY", by decide, by decide⟩
  have hunique : Spells "UNIQUE".toList "UNIQUE".toList := by decide
  have hfront : IsConstraint "CONSTRAINT c ".toList :=
    .named ⟨"CONSTRAINT".toList, [' '], by decide, by decide, hblank, rfl⟩ (by decide) hc
      (by decide) hblank
  have hname : IsKeyName " \x60k\x60 ".toList :=
    .named hblank .backtick ⟨['k'], by decide, by decide⟩ .backtick hblank
  have hbare : IsKeyName "k ".toList :=
    .named hnil .bare ⟨['k'], by decide, by decide⟩ .bare hblank
  have htail : IsKeyTail " KEY \x60k\x60 ".toList := .worded (by decide) hblank hword hname
  have hhead : IsKeyHead .unique head := .unique hfront hunique htail
  have hindex : IsKeyHead .index "KEY k ".toList := .index hword (by decide) hblank hbare
  have hlist : closingParen (list ++ ')' :: options) = some (list, options) := by decide
  have hclosed : closingParen "x) COMMENT 'n)'".toList
      = some ("x".toList, " COMMENT 'n)'".toList) := by decide
  have hkey : parseKey (head ++ '(' :: (list ++ ')' :: options))
      = some { name := "k", kind := .unique, columns := ["a", "b"] } := by decide
  obtain ⟨hheads, hoptions⟩ := parseKey_options (head ++ '(' :: (list ++ ')' :: options))
  obtain ⟨hsame, hcolumns, -⟩ := hoptions _ _ _ _ _ hhead rfl hlist
  obtain ⟨-, hquoted⟩ := parseKey_options ("KEY k ".toList ++ '(' :: "x) COMMENT 'n)'".toList)
  obtain ⟨-, -, hfar⟩ := hquoted _ _ _ _ _ hindex rfl hclosed
  exact ⟨⟨hheads _ hkey, hhead, hlist, by decide, by decide, hsame.mpr (by decide),
    hcolumns (by decide)⟩, hkey, hindex, hclosed, hfar _ ['\''] rfl (by decide)⟩

/-- The parenthesis in a comment is taken for the end of the list. -/
theorem parseKey_comment_ne :
    closingParen "x) COMMENT 'n)'".toList = some ("x".toList, " COMMENT 'n)'".toList) ∧
      Level 0 " COMMENT 'n)'".toList ∧
      parseKey "KEY k (x)".toList = some { name := "k", kind := .index, columns := ["x"] } ∧
      parseKey "KEY k (x) COMMENT 'n)'".toList ≠ parseKey "KEY k (x)".toList ∧
      parseKey "KEY k (x) COMMENT 'n)'".toList
        = some { name := "k", kind := .index, columns := ["x) COMMENT 'n"] } := by
  refine ⟨by decide, level_iff.mpr rfl, by decide, by decide, by decide⟩

end CodeIndex.Sql
