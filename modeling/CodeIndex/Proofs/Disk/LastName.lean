import CodeIndex.Disk.Store
import CodeIndex.Proofs.Path.Pieces

/-!
# The last name of a path

The temporary file beside a path has the same pieces in front of another name, and nothing behind
it.  So both paths take the same steps up to their last names, and these are different: one of them
has an extension that the other cannot have.

* `splitAt_withExtension` : another extension changes the last piece only.
* `withExtension_name_ne` : an extension with a dot in it makes another name.
* `exists_steps` : the steps of a path, by its pieces.
* `steps_temporaryPath`, `temporaryPath_ne` : a path and the temporary file beside it.
-/

namespace CodeIndex

namespace Path

open Text

variable {name extension : List Char}

/-- The pieces of a text that was put together from a front and pieces. -/
theorem splitAt_write (cs : List Char) {pieces : List (List Char)} (hne : pieces ≠ [])
    (hslash : ∀ piece ∈ pieces, '/' ∉ piece) :
    splitAt '/' (write (lead cs).1 pieces) = leadPieces (lead cs).1 ++ pieces := by
  rcases lead_cases cs with hfirst | hfirst | hfirst
  · rw [hfirst]
    exact splitAt_join hne hslash
  · rw [hfirst, write, splitAt, if_pos rfl, splitAt_join hne hslash]
    rfl
  · rw [hfirst]
    refine splitAt_join (List.cons_ne_nil _ _) ?_
    rw [List.forall_mem_cons]
    exact ⟨by decide, hslash⟩

/-- A name is its stem and what stands behind it: nothing, or a dot and an extension without one. -/
theorem eq_stem_append (name : List Char) : ∃ back, name = (splitExtension name).1 ++ back ∧
    (back = [] ∨ ∃ extension, back = '.' :: extension ∧ '.' ∉ extension) := by
  unfold splitExtension
  split
  · exact ⟨[], (List.append_nil _).symm, .inl rfl⟩
  · rename_i stem extension _ hsplit
    obtain ⟨hname, hdot⟩ := splitLast?_eq_some_iff.mp hsplit
    exact ⟨_, hname, .inr ⟨extension, rfl, hdot⟩⟩
  · exact ⟨[], (List.append_nil _).symm, .inl rfl⟩

/-- An extension with a dot in it makes another name. -/
theorem withExtension_name_ne (h : '.' ∈ extension) :
    (splitExtension name).1 ++ '.' :: extension ≠ name := by
  obtain ⟨back, hname, hback⟩ := eq_stem_append name
  intro hsame
  have hends := List.append_cancel_left (hsame.trans hname)
  rcases hback with rfl | ⟨other, rfl, hdot⟩
  · cases hends
  · cases hends
    exact hdot h

/-- Another extension changes the last piece only. -/
theorem splitAt_withExtension {path : String} {first : Option Component}
    {before : List (List Char)} (h : splitName? path = some (first, before, name))
    {extension : String} (hslash : '/' ∉ extension.toList) :
    splitAt '/' (withExtension path extension).toList
      = leadPieces first ++ before ++ [(splitExtension name).1 ++ '.' :: extension.toList] := by
  obtain ⟨rfl, -, -, tail, hbody, -⟩ := splitName?_eq_some_iff.mp h
  have hpieces : ∀ piece ∈ before ++ name :: tail, '/' ∉ piece := by
    intro piece hpiece
    have hmem : piece ∈ splitAt '/' path.toList := by
      rw [splitAt_lead, hbody]
      exact List.mem_append_right _ hpiece
    exact not_mem_of_mem_splitAt hmem
  rw [List.forall_mem_append, List.forall_mem_cons] at hpieces
  obtain ⟨back, hname, -⟩ := eq_stem_append name
  rw [withExtension, h, String.toList_ofList, splitAt_write _ (by simp), List.append_assoc]
  rw [List.forall_mem_append]
  refine ⟨hpieces.1, ?_⟩
  intro piece hpiece
  rw [List.mem_singleton.mp hpiece, List.mem_append, not_or, List.mem_cons, not_or]
  refine ⟨fun hstem => hpieces.2.1 ?_, by decide, hslash⟩
  rw [hname]
  exact List.mem_append_left _ hstem

end Path

/-! ## Steps -/

namespace Disk

open Text CodeIndex.Path

variable {path name : String}

/-- The steps lead nowhere else: they are dots, and slashes at the end. -/
def Stay (way : List Step) : Prop := ∀ step ∈ way, step = .here ∨ step = .slash

/-- A trivial piece of a path is no step or one that stays. -/
theorem step?_of_idle {piece : List Char} (h : isTrivial piece = true) :
    step? piece = none ∨ step? piece = some .here := by
  rw [isTrivial, Bool.or_eq_true, beq_iff_eq, beq_iff_eq] at h
  rcases h with rfl | rfl
  · exact .inl rfl
  · exact .inr rfl

/-- Any other piece but a double dot is the step of its name. -/
theorem step?_of_not_idle {piece : List Char} (h : isTrivial piece = false)
    (hdots : piece ≠ ['.', '.']) : step? piece = some (.named (String.ofList piece)) := by
  rw [isTrivial, Bool.or_eq_false_iff] at h
  rw [step?, h.1, h.2, beq_eq_false_iff_ne.mpr hdots]
  rfl

/-- A text starts with a slash if its first piece is empty and more follow. -/
theorem startsWith_slash_iff {cs first : List Char} {pieces : List (List Char)}
    (h : splitAt '/' cs = first :: pieces) :
    startsWith ['/'] cs = true ↔ first = [] ∧ pieces ≠ [] := by
  have hslash : '/' ∉ first := by
    have hmem : first ∈ splitAt '/' cs := by
      rw [h]
      exact List.mem_cons_self
    exact not_mem_of_mem_splitAt hmem
  have htext := join_splitAt '/' cs
  rw [startsWith_iff, ← htext, h]
  cases pieces with
  | nil =>
      refine iff_of_false (fun hstarts => ?_) fun hboth => hboth.2 rfl
      exact hslash (hstarts.subset (List.mem_singleton_self _))
  | cons next rest =>
      rw [join_cons (List.cons_ne_nil _ _)]
      cases first with
      | nil => simp
      | cons c first =>
          rw [List.mem_cons, not_or] at hslash
          simp [List.cons_prefix_cons, hslash.1]

/-- A text that ends in a slash has an empty last piece. -/
theorem getLast?_of_endsWith {cs : List Char} (h : endsWith ['/'] cs = true) :
    (splitAt '/' cs).getLast? = some [] := by
  obtain ⟨front, rfl⟩ := List.isSuffixOf_iff_suffix.mp h
  rw [splitAt_append_cons]
  exact List.getLast?_concat

/-- The steps of a path up to a piece that is a step depend on the pieces in front of it only. -/
theorem exists_steps (front : List (List Char)) : ∃ way, ∀ (path : String) piece step tail,
    splitAt '/' path.toList = front ++ piece :: tail → step? piece = some step → Idle tail →
      ∃ rest, steps path = way ++ step :: rest ∧ Stay rest ∧ (tail = [] → rest = []) := by
  refine ⟨(if front.head? = some [] then [Step.root] else []) ++ front.filterMap step?, ?_⟩
  intro path piece step tail hpieces hstep htail
  have hne : piece ≠ [] := by
    rintro rfl
    cases hstep
  have hstart : (startsWith ['/'] path.toList = true) = (front.head? = some []) := by
    cases front with
    | nil => simp [startsWith_slash_iff hpieces, hne]
    | cons first front => simp [startsWith_slash_iff hpieces]
  refine ⟨tail.filterMap step? ++ if endsWith ['/'] path.toList then [.slash] else [], ?_, ?_, ?_⟩
  · simp only [steps, hstart, hpieces, List.filterMap_append, List.filterMap_cons_some hstep,
      List.append_assoc, List.cons_append]
  · intro other hother
    rcases List.mem_append.mp hother with hmem | hmem
    · obtain ⟨idle, hidle, hother⟩ := List.mem_filterMap.mp hmem
      rcases step?_of_idle (htail idle hidle) with hnone | hhere
      · rw [hnone] at hother
        cases hother
      · rw [hhere] at hother
        exact .inl (Option.some.inj hother).symm
    · split at hmem
      · exact .inr (List.mem_singleton.mp hmem)
      · cases hmem
  · rintro rfl
    have hend : endsWith ['/'] path.toList ≠ true := by
      intro hend
      have hlast := getLast?_of_endsWith hend
      rw [hpieces, List.getLast?_concat, Option.some.injEq] at hlast
      exact hne hlast
    rw [if_neg hend]
    rfl

/-- The steps of a path with a file name, and of the temporary file beside it. -/
theorem steps_temporaryPath (h : fileName? path = some name) :
    ∃ front temporary rest, steps path = front ++ .named name :: rest ∧ Stay rest ∧
      steps (temporaryPath path) = front ++ [.named temporary] ∧ temporary ≠ name := by
  obtain ⟨⟨first, before, last⟩, hsplit, rfl⟩ := Option.map_eq_some_iff.mp h
  obtain ⟨hfirst, hlast, hdots, tail, hbody, htail⟩ := splitName?_eq_some_iff.mp hsplit
  obtain ⟨way, hway⟩ := exists_steps (leadPieces first ++ before)
  have hpieces : splitAt '/' path.toList = leadPieces first ++ before ++ last :: tail := by
    rw [splitAt_lead, hfirst, hbody, List.append_assoc]
  obtain ⟨rest, hrest, hstay, -⟩ :=
    hway path last _ tail hpieces (step?_of_not_idle hlast hdots) htail
  have hextension : '/' ∉ "json.tmp".toList := by decide
  have htemporary := splitAt_withExtension hsplit hextension
  have hother : (splitExtension last).1 ++ '.' :: "json.tmp".toList ≠ last :=
    withExtension_name_ne (by decide)
  have hlength : 9 ≤ ((splitExtension last).1 ++ '.' :: "json.tmp".toList).length := by simp
  generalize (splitExtension last).1 ++ '.' :: "json.tmp".toList = new at *
  have hlong : ∀ short : List Char, short.length < 9 → new ≠ short := by
    rintro short hshort rfl
    omega
  have hnew : isTrivial new = false := by
    simp [isTrivial, hlong [] (by simp), hlong ['.'] (by simp)]
  obtain ⟨none, hnone, -, hnil⟩ := hway (temporaryPath path) new _ [] htemporary
    (step?_of_not_idle hnew (hlong _ (by simp))) idle_nil
  refine ⟨way, String.ofList new, rest, hrest, hstay, ?_, ?_⟩
  · rw [hnone, hnil rfl]
  · rwa [Ne, String.ofList_inj]

/-- The temporary path is another one. -/
theorem temporaryPath_ne (h : fileName? path = some name) : temporaryPath path ≠ path := by
  obtain ⟨front, temporary, rest, hsteps, -, htemporary, hne⟩ := steps_temporaryPath h
  intro hsame
  rw [hsame, hsteps, List.append_cancel_left_eq, List.cons.injEq, Step.named.injEq] at htemporary
  exact hne htemporary.1.symm

/-- Only one step of a path leads somewhere with nothing but steps that stay behind it. -/
theorem last_step_unique {front front' rest rest' : List Step} {step step' : Step}
    (hstep : ¬Stay [step]) (hstep' : ¬Stay [step']) (hrest : Stay rest) (hrest' : Stay rest')
    (h : front ++ step :: rest = front' ++ step' :: rest') :
    front = front' ∧ step = step' ∧ rest = rest' := by
  have hfirst : ∀ {gap back back' : List Step} {s s' : Step}, Stay back → ¬Stay [s'] →
      s :: back = gap ++ s' :: back' → gap = [] := by
    intro gap back back' s s' hback hs' heq
    cases gap with
    | nil => rfl
    | cons first gap =>
        rw [List.cons_append, List.cons.injEq] at heq
        refine absurd (fun step hmem => hback step ?_) hs'
        rw [heq.2, List.mem_singleton.mp hmem]
        exact List.mem_append_right gap List.mem_cons_self
  have hfront : front = front' := by
    rcases List.append_eq_append_iff.mp h with ⟨gap, hgap, heq⟩ | ⟨gap, hgap, heq⟩
    · rw [hgap, hfirst hrest hstep' heq, List.append_nil]
    · rw [hgap, hfirst hrest' hstep heq, List.append_nil]
  subst hfront
  rw [List.append_cancel_left_eq, List.cons.injEq] at h
  exact ⟨rfl, h⟩

/-- A step to a name does not stay. -/
theorem named_not_stay (name : String) : ¬Stay [.named name] := by simp [Stay]

/-- A path that ends in a name has that name as its last step. -/
theorem exists_of_ending (h : ending path = .name) :
    ∃ front name, steps path = front ++ [.named name] := by
  unfold ending at h
  split at h
  · rename_i name rest hreverse
    refine ⟨rest.reverse, name, ?_⟩
    rw [← List.reverse_reverse (steps path), hreverse, List.reverse_cons]
  · cases h
  · cases h

/-- A name among the steps of a path is one of its pieces, so these do not all say nothing. -/
theorem not_idle_of_mem_steps (h : .named name ∈ steps path) :
    ¬Idle (splitAt '/' path.toList) := by
  intro hidle
  have hmem : .named name ∈ (splitAt '/' path.toList).filterMap step? := by
    rcases List.mem_append.mp h with hmem | hmem
    · rcases List.mem_append.mp hmem with hmem | hmem
      · split at hmem <;> simp at hmem
      · exact hmem
    · split at hmem <;> simp at hmem
  obtain ⟨piece, hpiece, hstep⟩ := List.mem_filterMap.mp hmem
  rcases step?_of_idle (hidle piece hpiece) with hnone | hhere
  · rw [hnone] at hstep
    cases hstep
  · rw [hhere] at hstep
    cases hstep

/-- A path that ends in a name has a file name. -/
theorem exists_fileName_of_ending (h : ending path = .name) :
    ∃ name, fileName? path = some name := by
  obtain ⟨front, name, hsteps⟩ := exists_of_ending h
  obtain ⟨tail, hbody, htail, hlast⟩ := exists_dropTrivialTail (lead path.toList).2
  have hpieces := splitAt_lead path.toList
  rw [hbody, ← List.append_assoc] at hpieces
  generalize dropTrivialTail (lead path.toList).2 = pieces at hbody hlast hpieces
  cases pieces using List.reverseRecOn with
  | nil =>
      have hname : .named name ∈ steps path := by
        rw [hsteps]
        exact List.mem_append_right front List.mem_cons_self
      refine absurd ?_ (not_idle_of_mem_steps hname)
      rw [hpieces, List.append_nil]
      exact List.forall_mem_append.mpr ⟨idle_leadPieces path.toList, htail⟩
  | append_singleton before piece =>
      rw [← List.append_assoc, List.append_assoc _ [piece]] at hpieces
      rw [List.append_assoc] at hbody
      have hpiece := hlast piece List.getLast?_concat
      by_cases hdots : piece = ['.', '.']
      · obtain ⟨way, hway⟩ := exists_steps (leadPieces (lead path.toList).1 ++ before)
        obtain ⟨rest, hrest, hstay, -⟩ :=
          hway path piece .up tail hpieces (by rw [hdots]; rfl) htail
        obtain ⟨-, hup, -⟩ := last_step_unique (by simp [Stay]) (named_not_stay name) hstay
          (by simp [Stay]) (hrest.symm.trans hsteps)
        cases hup
      · have hsplit := splitName?_eq_some_iff.mpr ⟨rfl, hpiece, hdots, tail, hbody, htail⟩
        exact ⟨_, Option.map_eq_some_iff.mpr ⟨_, hsplit, rfl⟩⟩

/-- The steps of a path that ends in a name, and of the temporary file beside it. -/
theorem steps_of_ending (h : ending path = .name) :
    ∃ front name temporary, steps path = front ++ [.named name] ∧
      steps (temporaryPath path) = front ++ [.named temporary] ∧ temporary ≠ name := by
  obtain ⟨name, hname⟩ := exists_fileName_of_ending h
  obtain ⟨front, temporary, rest, hsteps, hstay, htemporary, hne⟩ := steps_temporaryPath hname
  obtain ⟨front', name', hsteps'⟩ := exists_of_ending h
  obtain ⟨-, -, rfl⟩ := last_step_unique (named_not_stay name) (named_not_stay name') hstay
    (by simp [Stay]) (hsteps.symm.trans hsteps')
  exact ⟨front, name, temporary, hsteps, htemporary, hne⟩

end Disk

end CodeIndex
