import CodeIndex.Tool
import CodeIndex.Proofs.Text.Trim

/-!
# Mistakes of a call

A call goes wrong for what its caller wrote and for nothing else.  The arguments are read before
the snapshot is looked at, in a fixed order, and the first that is missing or out of place is
reported; once they are read there is an answer, be it that nothing is indexed.

* `Tool.Mistake` : what is wrong with a call, and how it is reported.
* `text?_eq_some_iff`, `TypeFilter.parse_eq_error_iff`, `count?_eq_error_iff` : what is read and
  what is refused.
* `Tool.call_eq_error_iff` : a call fails with its mistake.
-/

namespace CodeIndex

open Text

variable {args : Arguments} {name text : String} {e : QueryError}

/-! ## What is asked of arguments -/

/-- An argument is a text that is not blank.  Its outer blanks do not count. -/
def Request.Says (args : Arguments) (name text : String) : Prop :=
  ∃ s, args.get? name = some (.str s) ∧ (∃ c ∈ s.toList, isBlank c = false) ∧ text = trimmed s

/-- An integer from 1 up to the greatest unsigned 64-bit word. -/
def Request.IsCount (value : Json) : Prop :=
  ∃ n, 1 ≤ n ∧ n ≤ 18446744073709551615 ∧ value = .nat n

/-- A word that names a filter, in any case of ASCII letters. -/
def TypeFilter.IsWord (text : String) : Prop :=
  ∃ word ∈ ["all", "class", "method", "constant", "property"], sameName word text = true

open Request

/-- What is wrong with the arguments of a tool, and the error that says so.  A search reports its
query first, then its filter, then its limit; two of the tools have nothing to report. -/
inductive Tool.Mistake (args : Arguments) : Tool → QueryError → Prop
  | noName : (∀ text, ¬Says args "name" text) →
      Mistake args .lookupClass (.missingArgument "name")
  | noQuery : (∀ text, ¬Says args "query" text) →
      Mistake args .search (.missingArgument "query")
  | noFilter {query type : String} : Says args "query" query → Says args "type" type →
      ¬TypeFilter.IsWord type → Mistake args .search (.invalidTypeFilter type)
  | noCount {query : String} {value : Json} : Says args "query" query →
      (∀ type, Says args "type" type → TypeFilter.IsWord type) →
      args.get? "limit" = some value → value ≠ .null → ¬IsCount value →
      Mistake args .search (.invalidArgument "limit"
        ("expected a positive integer, got " ++ value.canonical.compact))
  | noTable : (∀ text, ¬Says args "table" text) → (∀ text, ¬Says args "component" text) →
      args.get? "list_all" ≠ some (.bool true) →
      Mistake args .lookupSchema (.missingArgument "table, component or list_all")

/-! ## What the readers refuse -/

/-- A sequence fails where its first step fails, or where it goes on and fails. -/
theorem bind_eq_error_iff {ε α β : Type} {x : Except ε α} {f : α → Except ε β} {e : ε} :
    x >>= f = .error e ↔ x = .error e ∨ ∃ a, x = .ok a ∧ f a = .error e := by
  cases x with
  | error e' => simp [bind, Except.bind]
  | ok a => simp [bind, Except.bind]

/-- A result keeps its error under a map. -/
theorem map_eq_error_iff {ε α β : Type} {x : Except ε α} {f : α → β} {e : ε} :
    x.map f = .error e ↔ x = .error e := by
  cases x with
  | error e' => simp [Except.map]
  | ok a => simp [Except.map]

/-- A text is trimmed to nothing if it has no character but blanks. -/
theorem isEmpty_trimmed {s : String} :
    (trimmed s).isEmpty = true ↔ ¬∃ c ∈ s.toList, isBlank c = false := by
  rw [String.isEmpty_iff, trimmed, String.ofList_eq_empty_iff, trim_eq_nil_iff]
  simp

/-- The words of the filters in any letter case. -/
theorem TypeFilter.isWord_iff : IsWord text ↔ ∃ f ∈ every, sameName f.word text = true := by
  have hwords : ["all", "class", "method", "constant", "property"] = every.map TypeFilter.word :=
    rfl
  rw [IsWord, hwords]
  simp only [List.mem_map, exists_exists_and_eq_and]

/-- A filter is refused unless it is empty or such a word. -/
theorem TypeFilter.parse_eq_error_iff :
    TypeFilter.parse text = .error e ↔
      text ≠ "" ∧ ¬IsWord text ∧ e = .invalidTypeFilter text := by
  rw [parse, isWord_iff]
  split
  · rename_i hempty
    rw [String.isEmpty_iff] at hempty
    simp [hempty]
  · rename_i hempty
    rw [String.isEmpty_iff] at hempty
    split
    · rename_i f hfind
      have hword : ∃ f ∈ every, sameName f.word text = true :=
        ⟨f, List.mem_of_find?_eq_some hfind,
          List.find?_some (p := fun f : TypeFilter => sameName f.word text) hfind⟩
      simp [hword]
    · rename_i hfind
      have hword : ¬∃ f ∈ every, sameName f.word text = true := by
        rintro ⟨f, hmem, hname⟩
        exact List.find?_eq_none.mp hfind f hmem hname
      simp only [Except.error.injEq, ne_eq, hempty, not_false_eq_true, hword, true_and]
      exact eq_comm

namespace Request

/-- A text argument is read if the arguments say it. -/
theorem text?_eq_some_iff : text? args name = some text ↔ Says args name text := by
  rw [text?]
  split
  · rename_i s hs
    simp only [Says, hs, Option.some.injEq, Json.str.injEq, exists_eq_left']
    split
    · rename_i hblank
      rw [isEmpty_trimmed] at hblank
      simp only [reduceCtorEq, hblank, false_and]
    · rename_i hblank
      rw [isEmpty_trimmed, not_not] at hblank
      simp only [Option.some.injEq, hblank, true_and]
      exact eq_comm
  · rename_i hother
    constructor
    · intro h
      cases h
    · rintro ⟨s, hs, -⟩
      exact absurd hs (hother s)

/-- No text is read if they say none. -/
theorem text?_eq_none_iff : text? args name = none ↔ ∀ text, ¬Says args name text := by
  rw [Option.eq_none_iff_forall_ne_some]
  simp only [ne_eq, text?_eq_some_iff]

/-- What is left of a text that is not blank is not empty. -/
theorem Says.ne_empty (h : Says args name text) : text ≠ "" := by
  obtain ⟨s, -, hblank, rfl⟩ := h
  intro hempty
  exact isEmpty_trimmed.mp (String.isEmpty_iff.mpr hempty) hblank

/-- A needed text is there if the arguments say it. -/
theorem neededText_eq_ok_iff : neededText args name = .ok text ↔ Says args name text := by
  rw [neededText, ← text?_eq_some_iff]
  cases text? args name <;> simp

theorem neededText_eq_error_iff : neededText args name = .error e ↔
    (∀ text, ¬Says args name text) ∧ e = .missingArgument name := by
  rw [neededText, ← text?_eq_none_iff]
  cases text? args name <;> simp [eq_comm]

/-- Only a count is read as one. -/
theorem positive?_eq_none_iff {value : Json} : positive? value = none ↔ ¬IsCount value := by
  have hlimit : ∀ n, n < Json.wordLimit ↔ n ≤ 18446744073709551615 := by
    intro n
    have hword : Json.wordLimit = 18446744073709551616 := rfl
    omega
  rw [positive?.eq_def]
  split
  · rename_i n
    simp only [ite_eq_right_iff, reduceCtorEq, imp_false, IsCount, Json.nat, Json.number.injEq,
      Json.Number.natural.injEq, hlimit]
    grind
  · rename_i hother
    simp only [true_iff]
    rintro ⟨n, -, -, rfl⟩
    exact hother n rfl

/-- A count is refused if its argument is there and is none. -/
theorem count?_eq_error_iff : count? args name = .error e ↔
    ∃ value, args.get? name = some value ∧ value ≠ .null ∧ ¬IsCount value ∧
      e = .invalidArgument name
        ("expected a positive integer, got " ++ value.canonical.compact) := by
  rw [count?]
  split
  · rename_i hnone
    simp [hnone]
  · rename_i hnull
    simp [hnull]
  · rename_i value hnull hvalue
    have hne : value ≠ .null := fun hnull' => hnull hnull'
    simp only [hvalue, Option.some.injEq, exists_eq_left', ne_eq, hne, not_false_eq_true, true_and,
      ← positive?_eq_none_iff]
    cases positive? value <;> simp [eq_comm]

/-- The type of a search is refused if it is said and no word. -/
theorem parse_type_eq_error_iff :
    TypeFilter.parse ((text? args "type").getD "all") = .error e ↔
      ∃ type, Says args "type" type ∧ ¬TypeFilter.IsWord type ∧ e = .invalidTypeFilter type := by
  cases htext : text? args "type" with
  | none =>
      have hnone := text?_eq_none_iff.mp htext
      have hall : TypeFilter.parse "all" = .ok .all := rfl
      simp only [Option.getD_none, hall, hnone, false_and, exists_false, reduceCtorEq]
  | some type =>
      have hsays := text?_eq_some_iff.mp htext
      have honly : ∀ type', Says args "type" type' ↔ type' = type := by
        intro type'
        rw [← text?_eq_some_iff, htext, Option.some.injEq, eq_comm]
      simp only [Option.getD_some, TypeFilter.parse_eq_error_iff, ne_eq, hsays.ne_empty,
        not_false_eq_true, true_and, honly, exists_eq_left]

theorem exists_parse_type_iff :
    (∃ filter, TypeFilter.parse ((text? args "type").getD "all") = .ok filter) ↔
      ∀ type, Says args "type" type → TypeFilter.IsWord type := by
  have herror : (∃ filter, TypeFilter.parse ((text? args "type").getD "all") = .ok filter) ↔
      ¬∃ e, TypeFilter.parse ((text? args "type").getD "all") = .error e := by
    cases TypeFilter.parse ((text? args "type").getD "all") <;> simp
  rw [herror]
  simp only [parse_type_eq_error_iff]
  constructor
  · intro h type hsays
    by_contra hword
    exact h ⟨_, type, hsays, hword, rfl⟩
  · rintro h ⟨e, type, hsays, hword, -⟩
    exact hword (h type hsays)

/-- The three arguments of a search are read one after the other. -/
theorem searchOf_eq_error_iff : searchOf args = .error e ↔ Tool.Mistake args .search e := by
  have hread : searchOf args = .error e ↔
      ((∀ text, ¬Says args "query" text) ∧ e = .missingArgument "query") ∨
        ∃ query, Says args "query" query ∧
          (TypeFilter.parse ((text? args "type").getD "all") = .error e ∨
            (∃ filter, TypeFilter.parse ((text? args "type").getD "all") = .ok filter) ∧
              count? args "limit" = .error e) := by
    rw [searchOf, bind_eq_error_iff, neededText_eq_error_iff]
    simp only [bind_eq_error_iff, neededText_eq_ok_iff, reduceCtorEq, and_false, exists_false,
      or_false, exists_and_right]
  rw [hread, parse_type_eq_error_iff, exists_parse_type_iff, count?_eq_error_iff]
  constructor
  · rintro (⟨hquery, rfl⟩ | ⟨query, hquery, ⟨type, htype, hword, rfl⟩ |
      ⟨htype, value, hlimit, hnull, hcount, rfl⟩⟩)
    · exact .noQuery hquery
    · exact .noFilter hquery htype hword
    · exact .noCount hquery htype hlimit hnull hcount
  · intro h
    cases h with
    | noQuery hquery => exact .inl ⟨hquery, rfl⟩
    | noFilter hquery htype hword => exact .inr ⟨_, hquery, .inl ⟨_, htype, hword, rfl⟩⟩
    | noCount hquery htype hlimit hnull hcount =>
        exact .inr ⟨_, hquery, .inr ⟨htype, _, hlimit, hnull, hcount, rfl⟩⟩

/-- A flag is set by `true` alone. -/
theorem flag_eq_true_iff : flag args name = true ↔ args.get? name = some (.bool true) := by
  rw [flag]
  split
  · rename_i b hb
    simp [hb]
  · rename_i hother
    simpa using hother true

/-- The mistakes in the arguments of a table look-up. -/
theorem schemaOf_eq_error_iff : schemaOf args = .error e ↔ Tool.Mistake args .lookupSchema e := by
  have hread : schemaOf args = .error e ↔
      text? args "table" = none ∧ text? args "component" = none ∧
        ¬flag args "list_all" = true ∧ e = .missingArgument "table, component or list_all" := by
    rw [schemaOf]
    cases text? args "table" <;> cases text? args "component" <;> cases flag args "list_all" <;>
      simp [eq_comm]
  rw [hread, text?_eq_none_iff, text?_eq_none_iff, flag_eq_true_iff]
  constructor
  · rintro ⟨htable, hcomponent, hall, rfl⟩
    exact .noTable htable hcomponent hall
  · intro h
    cases h with
    | noTable htable hcomponent hall => exact ⟨htable, hcomponent, hall, rfl⟩

end Request

/-! ## Calls -/

namespace Tool

/-- A request fails with its first mistake. -/
theorem ofArguments_eq_error_iff {tool : Tool} :
    Request.ofArguments tool args = .error e ↔ Mistake args tool e := by
  cases tool with
  | lookupClass =>
      rw [Request.ofArguments, map_eq_error_iff, neededText_eq_error_iff]
      constructor
      · rintro ⟨hname, rfl⟩
        exact .noName hname
      · intro h
        cases h with
        | noName hname => exact ⟨hname, rfl⟩
  | search => exact searchOf_eq_error_iff
  | lookupSchema => exact schemaOf_eq_error_iff
  | listEvents | indexStats =>
      constructor
      · intro h
        cases h
      · intro h
        cases h

/-- A tool is found by its name. -/
theorem ofName?_name (tool : Tool) : ofName? tool.name = some tool := by
  cases tool <;> decide

/-- The tool that is found has the name. -/
theorem name_of_ofName? {tool : Tool} (h : ofName? name = some tool) : tool.name = name :=
  beq_iff_eq.mp (List.find?_some (p := fun t : Tool => t.name == name) h)

/-- A name is that of one tool or of none. -/
theorem ofName?_eq_none_iff : ofName? name = none ↔ ∀ tool : Tool, tool.name ≠ name := by
  constructor
  · rintro h tool rfl
    rw [ofName?_name] at h
    cases h
  · intro h
    by_contra hsome
    obtain ⟨tool, htool⟩ := Option.ne_none_iff_exists'.mp hsome
    exact h tool (name_of_ofName? htool)

/-- A call fails where its name is no tool's, or its arguments are a mistake with the tool of that
name. -/
theorem call_eq_error_iff (ctx : Context) (name : String) (args : Arguments) (e : QueryError) :
    call ctx name args = .error e ↔
      ((∀ tool : Tool, tool.name ≠ name) ∧ e = .unknownTool name) ∨
        ∃ tool : Tool, tool.name = name ∧ Mistake args tool e := by
  rw [call, map_eq_error_iff, request]
  cases hname : ofName? name with
  | none =>
      have hnone := ofName?_eq_none_iff.mp hname
      simp only [Except.error.injEq, hnone, ne_eq, not_false_eq_true, implies_true, true_and,
        false_and, exists_false, or_false]
      exact eq_comm
  | some tool =>
      obtain rfl := name_of_ofName? hname
      simp only [ofArguments_eq_error_iff]
      constructor
      · intro h
        exact .inr ⟨tool, rfl, h⟩
      · rintro (⟨hnone, -⟩ | ⟨tool', hsame, h⟩)
        · exact absurd rfl (hnone tool)
        · rw [← hsame, ofName?_name, Option.some.injEq] at hname
          exact hname ▸ h

/-- Arguments with which nothing can be wrong are answered. -/
theorem exists_call_eq_ok {tool : Tool} (h : ∀ e, ¬Mistake args tool e) (ctx : Context) :
    ∃ answer, call ctx tool.name args = .ok answer := by
  cases hcall : call ctx tool.name args with
  | ok answer => exact ⟨answer, rfl⟩
  | error e =>
      rcases (call_eq_error_iff ctx _ args e).mp hcall with ⟨hnone, -⟩ | ⟨tool', hsame, hmistake⟩
      · exact absurd rfl (hnone tool)
      · have htool := ofName?_name tool'
        rw [hsame, ofName?_name, Option.some.injEq] at htool
        exact absurd (htool ▸ hmistake) (h e)

/-- **A call fails on a mistake of its caller and on nothing else.**  Whether it fails, and how, is
the same over every snapshot, with every configuration and at every root: it is seen from the name
and the arguments.  Events and counts are always answered. -/
theorem call_fails (name : String) (args : Arguments) :
    (∀ ctx ctx' e, call ctx name args = .error e ↔ call ctx' name args = .error e) ∧
      (∀ ctx e, call ctx name args = .error e ↔
        ((∀ tool : Tool, tool.name ≠ name) ∧ e = .unknownTool name) ∨
          ∃ tool : Tool, tool.name = name ∧ Mistake args tool e) ∧
      ∀ ctx, (∃ answer, call ctx "list_events" args = .ok answer) ∧
        ∃ answer, call ctx "index_stats" args = .ok answer := by
  refine ⟨?_, fun ctx e => call_eq_error_iff ctx name args e, ?_⟩
  · intro ctx ctx' e
    rw [call_eq_error_iff, call_eq_error_iff]
  · intro ctx
    have hevents : ∀ e, ¬Mistake args .listEvents e := fun e h => nomatch h
    have hstats : ∀ e, ¬Mistake args .indexStats e := fun e h => nomatch h
    exact ⟨exists_call_eq_ok hevents ctx, exists_call_eq_ok hstats ctx⟩

/-- A filter between blanks is none of the five words as it is written, in whatever letter case, and
yet is understood. -/
theorem call_padded_filter :
    (∀ word ∈ ["all", "class", "method", "constant", "property"], sameName word " Class " = false) ∧
      (∃ c ∈ " Class ".toList, isBlank c = false) ∧
      ∃ answer, call ⟨Snapshot.empty ⟨⟨2024, 1, 2⟩, 3, 4, 0⟩, {}, "/srv/src"⟩ "search"
        (Dict.ofList [("query", .str "alpha"), ("type", .str " Class ")]) = .ok answer := by
  have hrequest : request "search" (Dict.ofList [("query", .str "alpha"), ("type", .str " Class ")])
      = .ok (.search "alpha" (.only .cls) none) := by decide
  refine ⟨by decide, ⟨'C', by decide, rfl⟩, ?_⟩
  rw [call, hrequest]
  exact ⟨_, rfl⟩

end Tool

end CodeIndex
