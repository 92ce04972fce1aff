import Mathlib.Data.List.DropRight
import CodeIndex.Json.Printer
import CodeIndex.Json.Reader

/-!
# Reading back a written value

A value without numbers is read back from the text that lays it out over lines, with the text
behind it left over.  A value of this kind never depends on what follows: strings, lists and
objects end with a mark of their own, and so do the three words.

The reader counts its steps down from the length of the text.  Every step into a list or an object
is paid for by the line break in front of the next item, so the length is always enough.

* `stringUnits_escaped` : a string is read back from its escaped characters.
* `readValue_prettyChars` : a value is read back, whatever follows.
* `parse?_pretty` : a whole text is read back.
-/

namespace CodeIndex.Json

/-- A value without numbers and without pieces that denote nothing. -/
inductive Plain : Json → Prop
  | null : Plain .null
  | bool (b : Bool) : Plain (.bool b)
  | str (s : String) : Plain (.str s)
  | arr {items : List Json} (h : ∀ j ∈ items, Plain j) : Plain (.arr items)
  | obj {entries : List (String × Json)} (h : ∀ e ∈ entries, Plain e.2) : Plain (.obj entries)

/-! ## Strings -/

/-- A code unit in front of those of a string. -/
def consUnit (unit : Nat) (read : Option (List Nat × List Char)) :
    Option (List Nat × List Char) :=
  read.map fun (units, rest) => (unit :: units, rest)

/-- A written hexadecimal digit is read back. -/
theorem hexValue?_hexDigit {n : Nat} (h : n < 16) : hexValue? (hexDigit n) = some n := by
  have hall : ∀ m ∈ List.range 16, hexValue? (hexDigit m) = some m := by decide
  exact hall n (List.mem_range.mpr h)

/-- A control character is read back from its `\u00..` escape. -/
theorem stringUnits_unicode {n : Nat} (h : n < 32) (rest : List Char) :
    stringUnits ('\\' :: 'u' :: '0' :: '0' :: hexDigit (n / 16) :: hexDigit (n % 16) :: rest)
      = consUnit n (stringUnits rest) := by
  have hunit : hexUnit? '0' '0' (hexDigit (n / 16)) (hexDigit (n % 16)) = some n := by
    have hhigh := hexValue?_hexDigit (show n / 16 < 16 by omega)
    have hlow := hexValue?_hexDigit (show n % 16 < 16 by omega)
    have hzero : hexValue? '0' = some 0 := by decide
    simp only [hexUnit?, hhigh, hlow, hzero, Option.bind_eq_bind, Option.bind_some,
      Option.some.injEq]
    omega
  rw [stringUnits, hunit]
  cases stringUnits rest <;> rfl

/-- An escape of two characters stands for one unit. -/
theorem stringUnits_simple {e c : Char} (hu : e ≠ 'u') (h : simpleEscape? e = some c)
    (rest : List Char) : stringUnits ('\\' :: e :: rest) = consUnit c.toNat (stringUnits rest) := by
  rw [stringUnits]
  · rw [h]
    cases stringUnits rest <;> rfl
  · intro a b c d rest' he
    cases he
    exact absurd rfl hu

/-- Any other character stands for itself. -/
theorem stringUnits_self {c : Char} (hquote : c ≠ '"') (hslash : c ≠ '\\') (h : ¬c.toNat < 32)
    (rest : List Char) : stringUnits (c :: rest) = consUnit c.toNat (stringUnits rest) := by
  have hplain : ¬(c.toNat < 32 ∨ c = '\\') := by
    rintro (hcontrol | hescape)
    · exact h hcontrol
    · exact hslash hescape
  rw [stringUnits]
  · rw [if_neg hplain]
    rfl
  · exact hquote
  · intro a b c d rest' he _
    exact hslash he
  · intro e rest' he _
    exact hslash he

/-- Each character is read back from its escape. -/
theorem stringUnits_escapeChar (c : Char) (rest : List Char) :
    stringUnits (escapeChar c ++ rest) = consUnit c.toNat (stringUnits rest) := by
  unfold escapeChar
  -- the seven escapes of one letter
  iterate 7
    split
    · subst c
      exact stringUnits_simple (by decide) rfl rest
  split
  · rename_i hcontrol
    exact stringUnits_unicode hcontrol rest
  · rename_i hquote hslash _ _ _ _ _ hcontrol
    exact stringUnits_self hquote hslash hcontrol rest

/-- A string is read back from its escaped characters up to the quote behind them. -/
theorem stringUnits_escaped (cs rest : List Char) :
    stringUnits (cs.flatMap escapeChar ++ '"' :: rest) = some (cs.map Char.toNat, rest) := by
  induction cs with
  | nil => rfl
  | cons c cs ih =>
      rw [List.flatMap_cons, List.append_assoc, stringUnits_escapeChar, ih]
      rfl

/-- The units of characters are those characters: none of them is half of a pair. -/
theorem unitsText?_toNat (cs : List Char) : unitsText? (cs.map Char.toNat) = some cs := by
  have hhalf : ∀ c : Char, isHighHalf c.toNat = false ∧ isLowHalf c.toNat = false := by
    intro c
    have hvalid : c.toNat < 55296 ∨ 57343 < c.toNat ∧ c.toNat < 1114112 := c.valid
    simp only [isHighHalf, isLowHalf, Bool.and_eq_false_iff, decide_eq_false_iff_not]
    omega
  induction cs with
  | nil => rfl
  | cons c cs ih =>
      cases cs with
      | nil => simp [unitsText?, hhalf c, Char.ofNat_toNat]
      | cons d cs =>
          rw [List.map_cons] at ih
          rw [List.map_cons, List.map_cons, unitsText?, ih]
          simp [hhalf c, Char.ofNat_toNat]

/-! ## Blanks -/

/-- A line break and its indentation are skipped. -/
theorem skipSpace_newLine (level : Nat) (cs : List Char) :
    skipSpace (newLine level ++ cs) = skipSpace cs := by
  refine List.dropWhile_append_of_pos ?_
  intro c hc
  rcases List.mem_cons.mp hc with rfl | hc
  · rfl
  · rw [(List.mem_replicate.mp hc).2]
    rfl

/-- Nothing is skipped in front of what is no space. -/
theorem skipSpace_cons {c : Char} (hc : isSpace c = false) (cs : List Char) :
    skipSpace (c :: cs) = c :: cs :=
  List.dropWhile_cons_of_neg (by simp [hc])

/-- Readers pass over the same blanks, whoever skips them. -/
theorem readValue_congr {cs cs' : List Char} (h : skipSpace cs = skipSpace cs') (fuel : Nat) :
    readValue fuel cs = readValue fuel cs' := by
  cases fuel with
  | zero => rfl
  | succ fuel => rw [readValue, readValue, h]

/-- Space in front of the items is not seen. -/
theorem readItems_congr {cs cs' : List Char} (h : skipSpace cs = skipSpace cs') (fuel : Nat) :
    readItems fuel cs = readItems fuel cs' := by
  cases fuel with
  | zero => rfl
  | succ fuel => rw [readItems, readItems, readValue_congr h]

/-- Space in front of the entries is not seen. -/
theorem readEntries_congr {cs cs' : List Char} (h : skipSpace cs = skipSpace cs') (fuel : Nat) :
    readEntries fuel cs = readEntries fuel cs' := by
  cases fuel with
  | zero => rfl
  | succ fuel => rw [readEntries, readEntries, h]

/-! ## Values -/

/-- A value starts with a mark that is neither blank nor the end of a list. -/
theorem Plain.head {j : Json} (h : j.Plain) (level : Nat) :
    ∃ c tail, prettyChars level j = c :: tail ∧ isSpace c = false ∧ c ≠ ']' := by
  cases h with
  | null => exact ⟨'n', _, rfl, by decide, by decide⟩
  | bool b => cases b <;> exact ⟨_, _, rfl, by decide, by decide⟩
  | str s => exact ⟨'"', _, rfl, by decide, by decide⟩
  | @arr items _ => cases items <;> exact ⟨'[', _, rfl, by decide, by decide⟩
  | @obj entries _ => cases entries <;> exact ⟨'\x7b', _, rfl, by decide, by decide⟩

/-- The text of a value is read back in as many steps as it has characters. -/
def ReadsBack (j : Json) : Prop :=
  ∀ level fuel rest, (prettyChars level j).length ≤ fuel →
    readValue fuel (prettyChars level j ++ rest) = some (j, rest)

theorem length_newLine_pos (level : Nat) : 0 < (newLine level).length := by
  simp [newLine]

/-- A value on a line of its own. -/
theorem ReadsBack.line {j : Json} (h : ReadsBack j) {level fuel : Nat}
    (hfuel : (prettyChars level j).length ≤ fuel) (rest : List Char) :
    readValue fuel (newLine level ++ prettyChars level j ++ rest) = some (j, rest) := by
  rw [List.append_assoc, readValue_congr (skipSpace_newLine level _), h level fuel rest hfuel]

theorem prettyItems_cons_cons (level : Nat) (item next : Json) (more : List Json) :
    prettyItems level (item :: next :: more) = newLine level ++ prettyChars level item ++
      ',' :: prettyItems level (next :: more) := by
  rw [prettyItems]
  simp

theorem prettyEntries_cons_cons (level : Nat) (key : String) (value : Json)
    (next : String × Json) (more : List (String × Json)) :
    prettyEntries level ((key, value) :: next :: more) = newLine level ++ quoted key ++
      ':' :: ' ' :: (prettyChars level value ++ ',' :: prettyEntries level (next :: more)) := by
  rw [prettyEntries]
  simp

/-- The items of a list are read back up to the bracket behind them. -/
theorem readItems_prettyItems {items : List Json} (hitems : ∀ j ∈ items, ReadsBack j)
    (hne : items ≠ []) {level fuel : Nat} (hfuel : (prettyItems level items).length < fuel)
    (close : Nat) (rest : List Char) :
    readItems fuel (prettyItems level items ++ (newLine close ++ ']' :: rest))
      = some (items, rest) := by
  induction items generalizing fuel with
  | nil => exact absurd rfl hne
  | cons item items ih =>
      obtain ⟨fuel, rfl⟩ : ∃ n, fuel = n + 1 := ⟨fuel - 1, by omega⟩
      have hitem : ReadsBack item := hitems item List.mem_cons_self
      have hline := length_newLine_pos level
      cases items with
      | nil =>
          rw [prettyItems, List.length_append] at hfuel
          rw [prettyItems, readItems, hitem.line (by omega)]
          simp only [Option.bind_eq_bind, Option.bind_some, skipSpace_newLine,
            skipSpace_cons (show isSpace ']' = false by decide)]
      | cons next more =>
          rw [prettyItems_cons_cons, List.length_append, List.length_append,
            List.length_cons] at hfuel
          have hrest : readItems fuel (prettyItems level (next :: more) ++
              (newLine close ++ ']' :: rest)) = some (next :: more, rest) :=
            ih (fun j hj => hitems j (List.mem_cons_of_mem _ hj)) (by simp) (by omega)
          rw [prettyItems_cons_cons, List.append_assoc, List.cons_append, readItems,
            hitem.line (by omega)]
          simp only [Option.bind_eq_bind, Option.bind_some,
            skipSpace_cons (show isSpace ',' = false by decide), hrest]

/-- An entry on a line of its own, and what comes behind it. -/
theorem readEntries_line {value : Json} (h : ReadsBack value) (key : String) {level fuel : Nat}
    (hfuel : (prettyChars level value).length ≤ fuel) (tail : List Char) :
    readEntries (fuel + 1)
        (newLine level ++ (quoted key ++ ':' :: ' ' :: (prettyChars level value ++ tail)))
      = match skipSpace tail with
        | ',' :: rest => (readEntries fuel rest).bind fun (entries, rest) =>
            some (some (key, value) :: entries, rest)
        | '\x7d' :: rest => some ([some (key, value)], rest)
        | _ => none := by
  have hspace : skipSpace (' ' :: (prettyChars level value ++ tail))
      = skipSpace (prettyChars level value ++ tail) := rfl
  have htext : skipSpace (newLine level ++
      (quoted key ++ ':' :: ' ' :: (prettyChars level value ++ tail)))
      = '"' :: (key.toList.flatMap escapeChar ++
          '"' :: ':' :: ' ' :: (prettyChars level value ++ tail)) := by
    rw [skipSpace_newLine, quoted]
    simp [skipSpace_cons (show isSpace '"' = false by decide)]
  rw [readEntries, htext]
  simp only [stringUnits_escaped, unitsText?_toNat, Option.bind_eq_bind, Option.bind_some,
    skipSpace_cons (show isSpace ':' = false by decide), Option.map_some, String.ofList_toList]
  rw [readValue_congr hspace, h level fuel tail hfuel]
  rfl

/-- The entries of an object are read back up to the brace behind them. -/
theorem readEntries_prettyEntries {entries : List (String × Json)}
    (hentries : ∀ e ∈ entries, ReadsBack e.2) (hne : entries ≠ []) {level fuel : Nat}
    (hfuel : (prettyEntries level entries).length < fuel) (close : Nat) (rest : List Char) :
    readEntries fuel (prettyEntries level entries ++ (newLine close ++ '\x7d' :: rest))
      = some (entries.map some, rest) := by
  induction entries generalizing fuel with
  | nil => exact absurd rfl hne
  | cons entry entries ih =>
      obtain ⟨fuel, rfl⟩ : ∃ n, fuel = n + 1 := ⟨fuel - 1, by omega⟩
      obtain ⟨key, value⟩ := entry
      have hvalue : ReadsBack value := hentries (key, value) List.mem_cons_self
      have hline := length_newLine_pos level
      cases entries with
      | nil =>
          simp only [prettyEntries, List.length_append, List.length_cons] at hfuel
          simp only [prettyEntries, List.append_assoc, List.cons_append]
          rw [readEntries_line hvalue key (by omega)]
          simp only [skipSpace_newLine, skipSpace_cons (show isSpace '\x7d' = false by decide)]
          rfl
      | cons next more =>
          simp only [prettyEntries_cons_cons, List.length_append, List.length_cons] at hfuel
          have hrest : readEntries fuel (prettyEntries level (next :: more) ++
              (newLine close ++ '\x7d' :: rest)) = some ((next :: more).map some, rest) :=
            ih (fun e he => hentries e (List.mem_cons_of_mem _ he)) (by simp) (by omega)
          simp only [prettyEntries_cons_cons, List.append_assoc, List.cons_append]
          rw [readEntries_line hvalue key (by omega)]
          simp only [skipSpace_cons (show isSpace ',' = false by decide), hrest]
          rfl

/-- An array is read as its items, unless it is closed at once. -/
theorem readValue_bracket {fuel : Nat} {cs rest tail : List Char} {c : Char} {items : List Json}
    (hhead : skipSpace cs = c :: tail) (hc : c ≠ ']')
    (hread : readItems fuel cs = some (items, rest)) :
    readValue (fuel + 1) ('[' :: cs) = some (.arr items, rest) := by
  have hitems : readItems fuel (c :: tail) = some (items, rest) := by
    rw [← hhead]
    exact (readItems_congr (List.dropWhile_idempotent isSpace cs) fuel).trans hread
  rw [readValue, skipSpace_cons (show isSpace '[' = false by decide)]
  simp only [hhead]
  split
  · rename_i hclose
    cases hclose
    exact absurd rfl hc
  · rw [hitems]
    rfl

/-- An object is read as its entries, unless it is closed at once. -/
theorem readValue_brace {fuel : Nat} {cs rest tail : List Char} {c : Char}
    {entries : List (String × Json)} (hhead : skipSpace cs = c :: tail) (hc : c ≠ '\x7d')
    (hread : readEntries fuel cs = some (entries.map some, rest)) :
    readValue (fuel + 1) ('\x7b' :: cs) = some (.obj entries, rest) := by
  have hentries : readEntries fuel (c :: tail) = some (entries.map some, rest) := by
    rw [← hhead]
    exact (readEntries_congr (List.dropWhile_idempotent isSpace cs) fuel).trans hread
  have hall : (entries.map some).mapM id = some entries := by
    rw [List.mapM_map]
    exact (List.mapM_pure (f := id)).trans (by simp)
  rw [readValue, skipSpace_cons (show isSpace '\x7b' = false by decide)]
  simp only [hhead]
  split
  · rename_i hclose
    cases hclose
    exact absurd rfl hc
  · rw [hentries]
    simp only [Option.bind_eq_bind, Option.bind_some, hall]

/-- Behind the line break of an item stands its first character, which closes no array. -/
theorem skipSpace_prettyItems {item : Json} (h : item.Plain) (level : Nat) (more : List Json)
    (rest : List Char) :
    ∃ c tail, skipSpace (prettyItems level (item :: more) ++ rest) = c :: tail ∧ c ≠ ']' := by
  have hfirst : ∃ behind, prettyItems level (item :: more)
      = newLine level ++ (prettyChars level item ++ behind) := by
    cases more with
    | nil => exact ⟨[], by simp [prettyItems]⟩
    | cons next more => exact ⟨_, by rw [prettyItems_cons_cons, List.append_assoc]⟩
  obtain ⟨behind, hbehind⟩ := hfirst
  obtain ⟨c, tail, hhead, hspace, hc⟩ := h.head level
  refine ⟨c, tail ++ (behind ++ rest), ?_, hc⟩
  rw [hbehind, List.append_assoc, skipSpace_newLine, hhead, List.append_assoc, List.cons_append,
    skipSpace_cons hspace]

/-- Behind the line break of an entry stands the quote of its key. -/
theorem skipSpace_prettyEntries (entry : String × Json) (level : Nat)
    (more : List (String × Json)) (rest : List Char) :
    ∃ tail, skipSpace (prettyEntries level (entry :: more) ++ rest) = '"' :: tail := by
  have hfirst : ∃ behind, prettyEntries level (entry :: more) = newLine level ++ '"' :: behind := by
    obtain ⟨key, value⟩ := entry
    cases more with
    | nil => exact ⟨_, by rw [prettyEntries, quoted, List.append_assoc, List.cons_append]⟩
    | cons next more =>
        exact ⟨_, by rw [prettyEntries_cons_cons, quoted, List.append_assoc, List.cons_append]⟩
  obtain ⟨behind, hbehind⟩ := hfirst
  refine ⟨behind ++ rest, ?_⟩
  rw [hbehind, List.append_assoc, skipSpace_newLine, List.cons_append,
    skipSpace_cons (show isSpace '"' = false by decide)]

/-- A quoted string is read back, whatever follows. -/
theorem readValue_str (s : String) (fuel : Nat) (rest : List Char) :
    readValue (fuel + 1) (quoted s ++ rest) = some (.str s, rest) := by
  have htext : quoted s ++ rest = '"' :: (s.toList.flatMap escapeChar ++ '"' :: rest) := by
    simp [quoted]
  rw [htext, readValue, skipSpace_cons (show isSpace '"' = false by decide)]
  simp only [stringUnits_escaped, unitsText?_toNat, Option.bind_eq_bind, Option.bind_some,
    String.ofList_toList]

/-- **A value is read back from its text, whatever follows.** -/
theorem readValue_prettyChars {j : Json} (h : j.Plain) : ReadsBack j := by
  -- Every text takes at least one step, so the reader has one to start with.
  have hstart : ∀ {j : Json}, j.Plain → ∀ {level fuel : Nat},
      (prettyChars level j).length ≤ fuel → ∃ n, fuel = n + 1 := by
    intro j hj level fuel hfuel
    obtain ⟨c, tail, hhead, -⟩ := hj.head level
    rw [hhead, List.length_cons] at hfuel
    exact ⟨fuel - 1, by omega⟩
  induction h with
  | null =>
      intro level fuel rest hfuel
      obtain ⟨fuel, rfl⟩ := hstart .null hfuel
      rfl
  | bool b =>
      intro level fuel rest hfuel
      obtain ⟨fuel, rfl⟩ := hstart (.bool b) hfuel
      cases b <;> rfl
  | str s =>
      intro level fuel rest hfuel
      obtain ⟨fuel, rfl⟩ := hstart (.str s) hfuel
      exact readValue_str s fuel rest
  | @arr items hplain hitems =>
      intro level fuel rest hfuel
      obtain ⟨fuel, rfl⟩ := hstart (.arr hplain) hfuel
      cases items with
      | nil => rfl
      | cons item more =>
          have htext : prettyChars level (.arr (item :: more)) = '[' ::
              (prettyItems (level + 1) (item :: more) ++ newLine level ++ [']']) := rfl
          have hline := length_newLine_pos level
          rw [htext, List.length_cons, List.length_append, List.length_append] at hfuel
          obtain ⟨c, tail, hhead, hc⟩ := skipSpace_prettyItems (hplain item List.mem_cons_self)
            (level + 1) more (newLine level ++ ']' :: rest)
          have hread := readItems_prettyItems hitems (by simp)
            (show (prettyItems (level + 1) (item :: more)).length < fuel by omega) level rest
          simp only [htext, List.cons_append, List.append_assoc, List.nil_append]
          exact readValue_bracket hhead hc hread
  | @obj entries hplain hentries =>
      intro level fuel rest hfuel
      obtain ⟨fuel, rfl⟩ := hstart (.obj hplain) hfuel
      cases entries with
      | nil => rfl
      | cons entry more =>
          have htext : prettyChars level (.obj (entry :: more)) = '\x7b' ::
              (prettyEntries (level + 1) (entry :: more) ++ newLine level ++ ['\x7d']) := rfl
          have hline := length_newLine_pos level
          rw [htext, List.length_cons, List.length_append, List.length_append] at hfuel
          obtain ⟨tail, hhead⟩ := skipSpace_prettyEntries entry (level + 1) more
            (newLine level ++ '\x7d' :: rest)
          have hread := readEntries_prettyEntries hentries (by simp)
            (show (prettyEntries (level + 1) (entry :: more)).length < fuel by omega) level rest
          simp only [htext, List.cons_append, List.append_assoc, List.nil_append]
          exact readValue_brace hhead (by decide) hread

/-- A text that lays out a value is read back as that value. -/
theorem parse?_pretty {j : Json} (h : j.Plain) : parse? j.pretty = some j := by
  have hread : readValue ((prettyChars 0 j).length + 1) (prettyChars 0 j) = some (j, []) := by
    simpa using readValue_prettyChars h 0 ((prettyChars 0 j).length + 1) [] (by omega)
  unfold parse? pretty
  simp only [String.toList_ofList, hread]
  rfl

end CodeIndex.Json
