import CodeIndex.Proofs.Path.Relative

/-!
# What is left of a path below a root

A path lies below a root if its components start with those of the root.  What is left of it is a
part of its text: the text in front says the root, and the text behind says nothing.  Such a part
begins and ends with a piece that says something, so there is only one.

* `relativeTo?_eq_some_iff` : a path relative to a root is what is left of it.
* `Remaining.components_eq` : its components are those of the path behind the root's.
* `exists_remaining_iff` : when there is something left.
-/

namespace CodeIndex.Path

open Text

/-! ## Dropped components -/

/-- Pieces all say nothing, or there is a first one that says something. -/
theorem dropWhile_cases (pieces : List (List Char)) :
    (pieces.dropWhile isTrivial = [] ∧ inner pieces = []) ∨
      ∃ gap piece rest, pieces = gap ++ piece :: rest ∧ pieces.dropWhile isTrivial = piece :: rest ∧
        inner (gap ++ [piece]) = [component piece] ∧
        inner pieces = component piece :: inner rest := by
  have hpieces := List.takeWhile_append_dropWhile (p := isTrivial) (l := pieces)
  have hnot := List.head?_dropWhile_not isTrivial pieces
  have hidle : Idle (pieces.takeWhile isTrivial) := fun _ => List.mem_takeWhile_imp
  cases hdrop : pieces.dropWhile isTrivial with
  | nil =>
      rw [hdrop, List.append_nil] at hpieces
      rw [← hpieces]
      exact .inl ⟨rfl, inner_idle hidle⟩
  | cons piece rest =>
      simp only [hdrop] at hpieces hnot
      refine .inr ⟨_, piece, rest, hpieces.symm, rfl, ?_, ?_⟩
      · rw [inner_append, inner_idle hidle, inner_cons hnot]
        rfl
      · rw [← hpieces, inner_append, inner_idle hidle, inner_cons hnot, List.nil_append]

/-- The pieces that are dropped are those of the components. -/
theorem exists_of_dropComponents {cs : List Component} {pieces left : List (List Char)}
    (h : dropComponents cs pieces = some left) :
    ∃ taken, pieces = taken ++ left ∧ inner taken = cs := by
  induction cs generalizing pieces with
  | nil => exact ⟨[], (Option.some.inj h), rfl⟩
  | cons c cs ih =>
      rw [dropComponents] at h
      rcases dropWhile_cases pieces with ⟨hdrop, -⟩ | ⟨gap, piece, rest, rfl, hdrop, hpiece, -⟩
      · rw [hdrop] at h
        cases h
      · simp only [hdrop] at h
        split at h
        · rename_i hc
          obtain ⟨taken, rfl, htaken⟩ := ih h
          refine ⟨gap ++ [piece] ++ taken, by simp, ?_⟩
          rw [inner_append, hpiece, htaken, hc]
          rfl
        · cases h

/-- Components can be dropped exactly from pieces that start with them. -/
theorem exists_dropComponents_iff {cs : List Component} {pieces : List (List Char)} :
    (∃ left, dropComponents cs pieces = some left) ↔ cs <+: inner pieces := by
  constructor
  · rintro ⟨left, h⟩
    obtain ⟨taken, rfl, rfl⟩ := exists_of_dropComponents h
    rw [inner_append]
    exact List.prefix_append _ _
  · intro h
    induction cs generalizing pieces with
    | nil => exact ⟨pieces, rfl⟩
    | cons c cs ih =>
        rw [dropComponents]
        rcases dropWhile_cases pieces with ⟨-, hinner⟩ | ⟨gap, piece, rest, -, hdrop, -, hinner⟩
        · rw [hinner, List.prefix_nil] at h
          cases h
        · rw [hinner, List.cons_prefix_cons] at h
          simp only [hdrop, h.1, if_true]
          exact ih h.2

/-! ## What is left -/

/-- A text behind a path that says nothing: none, or one behind a slash. -/
def SaysNothing (back : String) : Prop :=
  back = "" ∨ ∃ idle, back = "/" ++ idle ∧ Idle (splitAt '/' idle.toList)

/-- What is left of a path below a root.  It is a part of the path's text; the components of the
root stand in front of it, and nothing is said behind it; and it begins and ends with a piece that
says something, unless nothing is left. -/
structure Remaining (path root rest : String) : Prop where
  text : ∃ front back, path = front ++ rest ++ back ∧ components front = components root ∧
    (rest = "" ∨ ∃ dir, front = dir ++ "/") ∧ SaysNothing back
  bare : rest = "" ∨ Bare (splitAt '/' rest.toList)

variable {path root rest back : String}

/-- It adds pieces that say nothing. -/
theorem SaysNothing.splitAt_append (h : SaysNothing back) : ∃ tail, Idle tail ∧
    ∀ cs, splitAt '/' (cs ++ back.toList) = splitAt '/' cs ++ tail := by
  rcases h with rfl | ⟨idle, rfl, hidle⟩
  · exact ⟨[], idle_nil, fun cs => by simp⟩
  · refine ⟨splitAt '/' idle.toList, hidle, fun cs => ?_⟩
    rw [← splitAt_append_cons, String.toList_append]
    rfl

/-- A text that says nothing adds no component. -/
theorem SaysNothing.components_append (h : SaysNothing back) {front : String}
    (hfront : front ≠ "") : components (front ++ back) = components front := by
  obtain ⟨tail, htail, hpieces⟩ := h.splitAt_append
  obtain ⟨first, body, -, hlead⟩ :=
    lead_append (mt String.toList_eq_nil_iff.mp hfront)
  rw [components_eq, components_eq, String.toList_append, hlead _ tail (hpieces _),
    hlead _ [] (List.append_nil _).symm, inner_append, inner_idle htail, List.append_nil,
    List.append_nil]

/-- Nothing is left of a path with the components of the root. -/
theorem relativeTo?_of_components_eq (hroot : root ≠ "") (h : components path = components root) :
    relativeTo? path root = some "" := by
  obtain ⟨gap, hgap, hdrop⟩ := dropComponents_append (lead path.toList).2 []
  rw [List.append_nil, List.append_nil] at hdrop
  refine (relativeTo?_eq_some_iff_drop hroot).mpr ⟨_, gap, h ▸ components_eq path, hdrop, ?_⟩
  have htrim : trimTrivial gap = [] := by
    rw [← List.append_nil gap, trimTrivial_append hgap]
    rfl
  rw [htrim]
  rfl

/-- What is left of a path is found. -/
theorem Remaining.relativeTo?_eq (hroot : root ≠ "") (h : Remaining path root rest) :
    relativeTo? path root = some rest := by
  obtain ⟨⟨front, back, rfl, hfront, hdir, hback⟩, hbare⟩ := h
  have hne : front ≠ "" := by
    rintro rfl
    exact components_ne_nil hroot hfront.symm
  by_cases hrest : rest = ""
  · subst hrest
    rw [String.append_empty]
    exact relativeTo?_of_components_eq hroot ((hback.components_append hne).trans hfront)
  · obtain ⟨dir, rfl⟩ := hdir.resolve_left hrest
    replace hbare := hbare.resolve_left hrest
    obtain ⟨tail, htail, hpieces⟩ := hback.splitAt_append
    have hrelative : isAbsolute (rest ++ back) = false := by
      rw [isAbsolute, Bool.eq_false_iff, Ne, startsWith_iff, String.toList_append]
      exact hbare.not_slash (mt String.toList_eq_nil_iff.mp hrest) back.toList
    have hextends : Extends (dir ++ "/") (rest ++ back) (dir ++ "/" ++ rest ++ back) := by
      have hend : endsWith ['/'] (dir ++ "/").toList = true := by
        rw [String.toList_append]
        exact endsWith_concat dir.toList '/' '/'
      refine .inl ?_
      rw [join, hrelative, hend, Bool.or_true, if_neg Bool.false_ne_true, if_pos rfl]
      exact String.append_assoc
    have hsame : relativeTo? (dir ++ "/" ++ rest ++ back) root
        = relativeTo? (dir ++ "/" ++ rest ++ back) (dir ++ "/") := by
      rw [relativeTo?, relativeTo?, hfront]
    rw [hsame, relativeTo?_of_extends hne hrelative hextends, String.toList_append, hpieces,
      ← List.nil_append (splitAt '/' rest.toList),
      trimTrivial_of_bare idle_nil hbare htail, join_splitAt, String.ofList_toList]

/-- The text of pieces in front of others, and of those. -/
theorem exists_text {pieces tail : List (List Char)} (htail : Idle tail)
    (hslash : ∀ piece ∈ tail, '/' ∉ piece) (hpieces : pieces ≠ []) :
    ∃ back, Text.join ['/'] (pieces ++ tail) = Text.join ['/'] pieces ++ String.toList back ∧
      SaysNothing back := by
  by_cases hnil : tail = []
  · exact ⟨"", by simp [hnil], .inl rfl⟩
  · let idle := String.ofList (Text.join ['/'] tail)
    have hidle : idle.toList = Text.join ['/'] tail := String.toList_ofList
    refine ⟨"/" ++ idle, ?_, .inr ⟨idle, rfl, ?_⟩⟩
    · rw [join_append hpieces hnil, String.toList_append, hidle, List.append_assoc]
      rfl
    · rwa [hidle, splitAt_join hnil hslash]

/-- The components of a text with a slash at its end are those of the pieces in front of it, and
these are the same in front of other pieces. -/
theorem components_front {front pieces : List (List Char)} (hfront : front ≠ [])
    (hslash : ∀ piece ∈ front, '/' ∉ piece) (hpieces : pieces ≠ []) {cs : List Char}
    (hcs : splitAt '/' cs = front ++ pieces) : ∃ body, (lead cs).2 = body ++ pieces ∧
      components (String.ofList (Text.join ['/'] front ++ ['/']))
        = (lead cs).1.toList ++ inner body := by
  obtain ⟨first, body, -, hlead⟩ := leadOf_append hfront
  have hdir : splitAt '/' (Text.join ['/'] front ++ ['/']) = front ++ [[]] := by
    rw [splitAt_append_cons, splitAt_join hfront hslash]
    rfl
  have hidle : inner [[]] = [] := rfl
  rw [components_eq, String.toList_ofList, lead_eq, lead_eq, hdir, hcs,
    hlead _ (append_ne_singleton_nil hfront hpieces),
    hlead _ (append_ne_singleton_nil hfront (List.cons_ne_nil _ _))]
  exact ⟨body, rfl, by rw [inner_append, hidle, List.append_nil]⟩

/-- Nothing is left if the path has no components behind the root's. -/
theorem remaining_of_components_eq (h : components path = components root) :
    Remaining path root "" :=
  ⟨⟨path, "", by simp, h, .inl rfl, .inl rfl⟩, .inl rfl⟩

/-- Pieces that say something at both ends are left, if those in front of them say the root and
those behind them nothing. -/
theorem remaining_of_pieces {front pieces tail : List (List Char)} (hfront : front ≠ [])
    (hpieces : pieces ≠ []) (hsplit : splitAt '/' path.toList = front ++ (pieces ++ tail))
    (hcomponents : ∀ body, (lead path.toList).2 = body ++ (pieces ++ tail) →
      (lead path.toList).1.toList ++ inner body = components root)
    (hbare : Bare pieces) (htail : Idle tail) :
    Remaining path root (String.ofList (Text.join ['/'] pieces)) := by
  have hslash : ∀ piece ∈ front ++ (pieces ++ tail), '/' ∉ piece :=
    fun piece hpiece => not_mem_of_mem_splitAt (hsplit ▸ hpiece)
  simp only [List.forall_mem_append] at hslash
  have hmore : pieces ++ tail ≠ [] := by simp [hpieces]
  obtain ⟨body, hbody, hcomponentsFront⟩ := components_front hfront hslash.1 hmore hsplit
  obtain ⟨back, hback, hnothing⟩ := exists_text htail hslash.2.2 hpieces
  have htext : path = String.ofList (Text.join ['/'] front ++ ['/'])
      ++ String.ofList (Text.join ['/'] pieces) ++ back := by
    rw [← String.toList_inj, String.toList_append, String.toList_append, String.toList_ofList,
      String.toList_ofList, ← join_splitAt '/' path.toList, hsplit, join_append hfront hmore, hback]
    simp only [List.append_assoc]
  refine ⟨⟨_, back, htext, ?_, .inr ⟨_, String.ofList_append⟩, hnothing⟩, .inr ?_⟩
  · rw [hcomponentsFront, hcomponents body hbody]
  · rwa [String.toList_ofList, splitAt_join hpieces hslash.2.1]

/-- **A path relative to a root** is what is left of it below the root. -/
theorem relativeTo?_eq_some_iff (hroot : root ≠ "") :
    relativeTo? path root = some rest ↔ Remaining path root rest := by
  refine ⟨fun h => ?_, Remaining.relativeTo?_eq hroot⟩
  obtain ⟨cs, left, hcomponents, hdrop, rfl⟩ := (relativeTo?_eq_some_iff_drop hroot).mp h
  obtain ⟨taken, hbody, rfl⟩ := exists_of_dropComponents hdrop
  obtain ⟨gap, tail, hleft, hgap, htail, hbare⟩ := exists_trimTrivial left
  generalize trimTrivial left = pieces at hleft hbare
  rw [hleft, List.append_assoc gap, ← List.append_assoc taken] at hbody
  by_cases hpieces : pieces = []
  · subst hpieces
    refine remaining_of_components_eq ?_
    rw [components_eq, hbody, hcomponents, List.nil_append, inner_append_idle _ htail,
      inner_append_idle _ hgap]
  · have hsplit : splitAt '/' path.toList
        = leadPieces (lead path.toList).1 ++ (taken ++ gap) ++ (pieces ++ tail) := by
      rw [splitAt_lead, hbody, ← List.append_assoc (leadPieces _)]
    refine remaining_of_pieces ?_ hpieces hsplit ?_ hbare htail
    · -- The root has a component, so the text in front is not empty.
      intro hnil
      rw [List.append_eq_nil_iff, List.append_eq_nil_iff] at hnil
      obtain ⟨hlead, rfl, -⟩ := hnil
      rw [leadPieces_eq_nil hlead] at hcomponents
      exact components_ne_nil hroot hcomponents
    · intro body hsame
      obtain rfl : taken ++ gap = body :=
        (List.append_left_inj (pieces ++ tail)).mp (hbody.symm.trans hsame)
      rw [hcomponents, inner_append_idle _ hgap]

/-- A path of pieces that say something at both ends has no front component. -/
theorem components_of_bare (h : Bare (splitAt '/' rest.toList)) :
    components rest = inner (splitAt '/' rest.toList) := by
  have hfirst : (lead rest.toList).1 = none := by
    have hpieces := splitAt_lead rest.toList
    rcases lead_cases rest.toList with hfirst | hfirst | hfirst
    · exact hfirst
    · rw [hfirst] at hpieces
      cases h.head [] (by rw [hpieces]; rfl)
    · rw [hfirst] at hpieces
      cases h.head ['.'] (by rw [hpieces]; rfl)
  rw [components_eq, splitAt_lead, hfirst]
  rfl

/-- The components of what is left are those of the path behind the root's. -/
theorem Remaining.components_eq (h : Remaining path root rest) (hroot : root ≠ "") :
    components path = components root ++ components rest := by
  obtain ⟨⟨front, back, rfl, hfront, hdir, hback⟩, hbare⟩ := h
  have hne : front ≠ "" := by
    rintro rfl
    exact components_ne_nil hroot hfront.symm
  rw [hback.components_append (by simp [hne]), ← hfront]
  by_cases hrest : rest = ""
  · subst hrest
    rw [String.append_empty]
    exact (List.append_nil _).symm
  · obtain ⟨dir, rfl⟩ := hdir.resolve_left hrest
    have hpieces : splitAt '/' (dir ++ "/" ++ rest).toList
        = splitAt '/' dir.toList ++ splitAt '/' rest.toList := by
      rw [← splitAt_append_cons, String.toList_append, String.toList_append, List.append_assoc]
      rfl
    obtain ⟨body, hbody, hcomponents⟩ := components_front (splitAt_ne_nil '/' dir.toList)
      (fun piece hpiece => not_mem_of_mem_splitAt hpiece) (splitAt_ne_nil '/' rest.toList) hpieces
    have htext : String.ofList (Text.join ['/'] (splitAt '/' dir.toList) ++ ['/'])
        = dir ++ "/" := by
      rw [join_splitAt, String.ofList_append, String.ofList_toList]
    rw [htext] at hcomponents
    rw [components_of_bare (hbare.resolve_left hrest), hcomponents, Path.components_eq, hbody,
      inner_append, List.append_assoc]

/-- Something is left exactly if the components of the path start with those of the root. -/
theorem exists_remaining_iff (hroot : root ≠ "") :
    (∃ rest, Remaining path root rest) ↔ components root <+: components path := by
  constructor
  · rintro ⟨rest, h⟩
    exact ⟨components rest, (h.components_eq hroot).symm⟩
  · intro h
    obtain ⟨cs, hcs, hbody⟩ : ∃ cs, components root = (lead path.toList).1.toList ++ cs ∧
        cs <+: inner (lead path.toList).2 := by
      rw [components_eq path] at h
      cases hfirst : (lead path.toList).1 with
      | none =>
          rw [hfirst] at h
          exact ⟨components root, rfl, h⟩
      | some front =>
          rw [hfirst] at h
          cases hcomponents : components root with
          | nil => exact absurd hcomponents (components_ne_nil hroot)
          | cons c cs =>
              rw [hcomponents] at h
              obtain ⟨rfl, hstarts⟩ := List.cons_prefix_cons.mp h
              exact ⟨cs, rfl, hstarts⟩
    obtain ⟨left, hleft⟩ := exists_dropComponents_iff.mpr hbody
    exact ⟨_, (relativeTo?_eq_some_iff hroot).mp
      ((relativeTo?_eq_some_iff_drop hroot).mpr ⟨cs, left, hcs, hleft, rfl⟩)⟩

end CodeIndex.Path
