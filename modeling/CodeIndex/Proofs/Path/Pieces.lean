import Mathlib.Data.List.Induction
import Mathlib.Data.List.TakeWhile
import CodeIndex.Path
import CodeIndex.Proofs.Text.Pieces

/-!
# The pieces of a path

A path is a text of pieces between slashes.  Its front says whether it starts at the root or in the
directory itself, and the pieces that say something give its components.  The last of them is its
file name, unless it leads up.

* `splitAt_lead`, `lead_append` : the front of a path and the pieces behind it.
* `exists_dropTrivialTail`, `exists_trimTrivial` : the pieces that are dropped from the ends.
* `splitName?_eq_some_iff`, `fileName?_eq_some_iff` : the file name of a path.
-/

namespace CodeIndex.Path

open Text

variable {path : String}

/-- The components of pieces inside a path. -/
def inner (pieces : List (List Char)) : List Component :=
  (pieces.filter fun piece => !isTrivial piece).map component

/-- The front component and the pieces after it, of a path that is given by its pieces. -/
def leadOf : List (List Char) → Option Component × List (List Char)
  | [] :: piece :: rest => (some .root, piece :: rest)
  | ['.'] :: rest => (some .here, rest)
  | pieces => (none, pieces)

/-- The lead of a path depends on its pieces alone. -/
theorem lead_eq (cs : List Char) : lead cs = leadOf (splitAt '/' cs) := rfl

/-- The components of a path are its lead and what is inside. -/
theorem components_eq (path : String) :
    components path = (lead path.toList).1.toList ++ inner (lead path.toList).2 := rfl

/-! ## The front -/

/-- The front of a path is that of its first pieces, as long as it is not the empty path.  A path
without a front component starts with a piece that says something. -/
theorem leadOf_append {front : List (List Char)} (hfront : front ≠ []) :
    ∃ first body, (first = none → inner body ≠ []) ∧
      ∀ rest, front ++ rest ≠ [[]] → leadOf (front ++ rest) = (first, body ++ rest) := by
  cases front with
  | nil => exact absurd rfl hfront
  | cons piece front =>
      by_cases hroot : piece = []
      · subst hroot
        refine ⟨some .root, front, by simp, ?_⟩
        intro rest hrest
        rw [List.cons_append] at hrest ⊢
        cases hbody : front ++ rest with
        | nil =>
            rw [hbody] at hrest
            exact absurd rfl hrest
        | cons next more => rfl
      · by_cases hhere : piece = ['.']
        · subst hhere
          exact ⟨some .here, front, by simp, fun _ _ => rfl⟩
        · have htrivial : isTrivial piece = false := by simp [isTrivial, hroot, hhere]
          refine ⟨none, piece :: front, ?_, ?_⟩
          · rw [inner, List.filter_cons_of_pos (by rw [htrivial]; rfl)]
            simp
          · intro rest _
            rw [List.cons_append, leadOf]
            · intro next more heq
              exact hroot (List.cons.inj heq).1
            · intro more heq
              exact hhere (List.cons.inj heq).1

/-- Two runs of pieces are more than one empty piece. -/
theorem append_ne_singleton_nil {front rest : List (List Char)} (hfront : front ≠ [])
    (hrest : rest ≠ []) : front ++ rest ≠ [[]] := by
  intro hsingle
  rcases List.append_eq_singleton_iff.mp hsingle with ⟨hnil, -⟩ | ⟨-, hnil⟩
  · exact hfront hnil
  · exact hrest hnil

/-- Only the empty text is a single empty piece. -/
theorem splitAt_ne_singleton_nil {cs : List Char} (h : cs ≠ []) : splitAt '/' cs ≠ [[]] := by
  intro hsingle
  apply h
  rw [← join_splitAt '/' cs, hsingle]
  rfl

/-- The front of a path that is not empty is that of its pieces, whatever pieces follow. -/
theorem lead_append {front : List Char} (hfront : front ≠ []) :
    ∃ first body, (first = none → inner body ≠ []) ∧ ∀ cs tail,
      splitAt '/' cs = splitAt '/' front ++ tail → lead cs = (first, body ++ tail) := by
  obtain ⟨first, body, hbody, hlead⟩ := leadOf_append (splitAt_ne_nil '/' front)
  refine ⟨first, body, hbody, fun cs tail hcs => ?_⟩
  rw [lead_eq, hcs]
  refine hlead tail fun hsingle => ?_
  rcases List.append_eq_singleton_iff.mp hsingle with ⟨hnil, -⟩ | ⟨hempty, -⟩
  · exact splitAt_ne_nil '/' front hnil
  · exact splitAt_ne_singleton_nil hfront hempty

/-- A path that is not empty has a component. -/
theorem components_ne_nil {root : String} (hroot : root ≠ "") : components root ≠ [] := by
  obtain ⟨first, body, hbody, hlead⟩ :=
    lead_append (mt String.toList_eq_nil_iff.mp hroot)
  rw [components_eq, hlead _ [] (List.append_nil _).symm, List.append_nil]
  cases first with
  | none => simpa using hbody rfl
  | some c => simp

/-- The pieces in front of those that a front component leaves. -/
def leadPieces : Option Component → List (List Char)
  | some .root => [[]]
  | some .here => [['.']]
  | _ => []

/-- The pieces of a path are those of its front component and those after it. -/
theorem splitAt_lead (cs : List Char) :
    splitAt '/' cs = leadPieces (lead cs).1 ++ (lead cs).2 := by
  rw [lead]
  split
  · rename_i heq
    rw [heq]
    rfl
  · rename_i heq
    rw [heq]
    rfl
  · rfl

/-- A front component is the root or the directory itself. -/
theorem lead_cases (cs : List Char) :
    (lead cs).1 = none ∨ (lead cs).1 = some .root ∨ (lead cs).1 = some .here := by
  rw [lead]
  split
  · exact .inr (.inl rfl)
  · exact .inr (.inr rfl)
  · exact .inl rfl

/-- Without a piece in front there is no lead. -/
theorem leadPieces_eq_nil {cs : List Char} (h : leadPieces (lead cs).1 = []) :
    (lead cs).1 = none := by
  rcases lead_cases cs with hfirst | hfirst | hfirst
  · exact hfirst
  · rw [hfirst] at h
    cases h
  · rw [hfirst] at h
    cases h

/-! ## Pieces that say nothing -/

/-- The pieces say nothing. -/
def Idle (pieces : List (List Char)) : Prop := ∀ piece ∈ pieces, isTrivial piece = true

/-- An empty list of pieces says nothing. -/
theorem idle_nil : Idle [] := fun _ h => absurd h List.not_mem_nil

/-- The first piece and the last one say something. -/
structure Bare (pieces : List (List Char)) : Prop where
  head : ∀ piece, pieces.head? = some piece → isTrivial piece = false
  last : ∀ piece, pieces.getLast? = some piece → isTrivial piece = false

/-- The front of a path says nothing inside one. -/
theorem idle_leadPieces (cs : List Char) : Idle (leadPieces (lead cs).1) := by
  rcases lead_cases cs with hfirst | hfirst | hfirst
  · rw [hfirst]
    exact idle_nil
  · rw [hfirst]
    simp [Idle, leadPieces, isTrivial]
  · rw [hfirst]
    simp [Idle, leadPieces, isTrivial]

/-- Components are read piece by piece. -/
theorem inner_append (a b : List (List Char)) : inner (a ++ b) = inner a ++ inner b := by
  rw [inner, List.filter_append, List.map_append]
  rfl

/-- Pieces that say nothing give no component. -/
theorem inner_idle {pieces : List (List Char)} (h : Idle pieces) : inner pieces = [] := by
  have hnone : pieces.filter (fun piece => !isTrivial piece) = [] := by
    rw [List.filter_eq_nil_iff]
    intro piece hpiece
    rw [h piece hpiece]
    decide
  rw [inner, hnone]
  rfl

/-- Pieces that say nothing add no component. -/
theorem inner_append_idle (pieces : List (List Char)) {tail : List (List Char)} (h : Idle tail) :
    inner (pieces ++ tail) = inner pieces := by
  rw [inner_append, inner_idle h, List.append_nil]

/-- Any other piece gives its component. -/
theorem inner_cons {piece : List Char} (h : isTrivial piece = false) (pieces : List (List Char)) :
    inner (piece :: pieces) = component piece :: inner pieces := by
  rw [inner, List.filter_cons_of_pos (by rw [h]; rfl), List.map_cons]
  rfl

/-- Pieces at the end that say nothing are dropped. -/
theorem dropTrivialTail_append_idle (pieces : List (List Char)) {tail : List (List Char)}
    (h : Idle tail) : dropTrivialTail (pieces ++ tail) = dropTrivialTail pieces := by
  rw [dropTrivialTail, dropTrivialTail, List.reverse_append,
    List.dropWhile_append_of_pos (by simpa [Idle] using h)]

/-- Pieces whose last one says something are kept. -/
theorem dropTrivialTail_eq_self {pieces : List (List Char)}
    (h : ∀ piece, pieces.getLast? = some piece → isTrivial piece = false) :
    dropTrivialTail pieces = pieces := by
  have hself : pieces.reverse.dropWhile isTrivial = pieces.reverse := by
    cases hreverse : pieces.reverse with
    | nil => rfl
    | cons piece rest =>
        refine List.dropWhile_cons_of_neg ?_
        rw [h piece (by rw [← List.head?_reverse, hreverse]; rfl)]
        exact Bool.false_ne_true
  rw [dropTrivialTail, hself, List.reverse_reverse]

/-- The pieces that are dropped from the end say nothing, and the last one that is left does. -/
theorem exists_dropTrivialTail (pieces : List (List Char)) :
    ∃ tail, pieces = dropTrivialTail pieces ++ tail ∧ Idle tail ∧
      ∀ piece, (dropTrivialTail pieces).getLast? = some piece → isTrivial piece = false := by
  refine ⟨(pieces.reverse.takeWhile isTrivial).reverse, ?_, ?_, ?_⟩
  · rw [dropTrivialTail, ← List.reverse_append, List.takeWhile_append_dropWhile,
      List.reverse_reverse]
  · exact fun piece hpiece => List.mem_takeWhile_imp (List.mem_reverse.mp hpiece)
  · intro piece hpiece
    have hnot := List.head?_dropWhile_not isTrivial pieces.reverse
    rw [dropTrivialTail, List.getLast?_reverse] at hpiece
    rw [hpiece] at hnot
    exact hnot

/-- The pieces that are trimmed say nothing, and those at the ends of what is left do. -/
theorem exists_trimTrivial (pieces : List (List Char)) :
    ∃ gap tail, pieces = gap ++ trimTrivial pieces ++ tail ∧ Idle gap ∧ Idle tail ∧
      Bare (trimTrivial pieces) := by
  obtain ⟨tail, htail, hidle, hlast⟩ := exists_dropTrivialTail (pieces.dropWhile isTrivial)
  refine ⟨pieces.takeWhile isTrivial, tail, ?_, fun _ => List.mem_takeWhile_imp, hidle, ?_, hlast⟩
  · rw [List.append_assoc, trimTrivial, ← htail, List.takeWhile_append_dropWhile]
  · intro piece hpiece
    have hnot := List.head?_dropWhile_not isTrivial pieces
    rw [htail, List.head?_append, ← trimTrivial, hpiece] at hnot
    exact hnot

/-- Pieces that say nothing are trimmed from the front. -/
theorem trimTrivial_append {gap : List (List Char)} (h : Idle gap) (rest : List (List Char)) :
    trimTrivial (gap ++ rest) = trimTrivial rest := by
  rw [trimTrivial, trimTrivial, List.dropWhile_append_of_pos h]

/-- What says nothing is dropped on both sides of bare pieces. -/
theorem trimTrivial_of_bare {gap pieces tail : List (List Char)} (hgap : Idle gap)
    (h : Bare pieces) (htail : Idle tail) : trimTrivial (gap ++ pieces ++ tail) = pieces := by
  rw [List.append_assoc, trimTrivial_append hgap, trimTrivial]
  cases pieces with
  | nil =>
      rw [List.nil_append, List.dropWhile_eq_nil_iff.mpr htail]
      rfl
  | cons piece rest =>
      rw [List.cons_append, List.dropWhile_cons_of_neg (by rw [h.head piece rfl]; decide),
        ← List.cons_append, dropTrivialTail_append_idle _ htail, dropTrivialTail_eq_self h.last]

/-- A text of such pieces does not begin with a slash. -/
theorem Bare.not_slash {cs : List Char} (h : Bare (splitAt '/' cs)) (hne : cs ≠ [])
    (back : List Char) : ¬['/'] <+: cs ++ back := by
  cases cs with
  | nil => exact absurd rfl hne
  | cons c cs =>
      rw [List.cons_append, List.cons_prefix_cons]
      rintro ⟨rfl, -⟩
      have hempty := h.head [] (by rw [splitAt, if_pos rfl]; rfl)
      cases hempty

/-! ## File names -/

/-- The file name of a path is its last piece that says something, unless that leads up. -/
theorem splitName?_eq_some_iff {first : Option Component} {before : List (List Char)}
    {name : List Char} : splitName? path = some (first, before, name) ↔
      (lead path.toList).1 = first ∧ isTrivial name = false ∧ name ≠ ['.', '.'] ∧
        ∃ tail, (lead path.toList).2 = before ++ name :: tail ∧ Idle tail := by
  rw [splitName?]
  generalize lead path.toList = parts
  obtain ⟨front, body⟩ := parts
  constructor
  · obtain ⟨tail, hbody, htail, hlast⟩ := exists_dropTrivialTail body
    intro h
    cases hreverse : (dropTrivialTail body).reverse with
    | nil => simp [hreverse] at h
    | cons piece rest =>
        have hpieces : dropTrivialTail body = rest.reverse ++ [piece] := by
          rw [← List.reverse_reverse (dropTrivialTail body), hreverse, List.reverse_cons]
        by_cases hdots : piece = ['.', '.']
        · simp [hreverse, hdots] at h
        · simp only [hreverse, beq_iff_eq, hdots, if_false, Option.some.injEq,
            Prod.mk.injEq] at h
          obtain ⟨rfl, rfl, rfl⟩ := h
          rw [hpieces] at hbody hlast
          refine ⟨rfl, hlast piece List.getLast?_concat, hdots, tail, ?_, htail⟩
          rw [hbody, List.append_assoc]
          rfl
  · rintro ⟨rfl, hname, hdots, tail, rfl, htail⟩
    have hpieces : dropTrivialTail (before ++ name :: tail) = before ++ [name] := by
      rw [← List.singleton_append, ← List.append_assoc, dropTrivialTail_append_idle _ htail]
      refine dropTrivialTail_eq_self ?_
      intro piece hpiece
      rw [List.getLast?_concat, Option.some.injEq] at hpiece
      rw [← hpiece, hname]
    simp [hpieces, hdots]

/-- A path ends in a name exactly if its last component is one. -/
theorem fileName?_eq_some_iff {name : String} : fileName? path = some name ↔
    ∃ front, components path = front ++ [.named name.toList] := by
  rw [fileName?, Option.map_eq_some_iff, components_eq]
  constructor
  · rintro ⟨⟨first, before, piece⟩, hsplit, rfl⟩
    obtain ⟨rfl, hpiece, hdots, tail, hbody, htail⟩ := splitName?_eq_some_iff.mp hsplit
    refine ⟨(lead path.toList).1.toList ++ inner before, ?_⟩
    rw [hbody, inner_append, inner_cons hpiece, inner_idle htail, component,
      if_neg (by simpa using hdots), String.toList_ofList, List.append_assoc]
  · rintro ⟨front, hcomponents⟩
    obtain ⟨tail, hbody, htail, hlast⟩ := exists_dropTrivialTail (lead path.toList).2
    generalize dropTrivialTail (lead path.toList).2 = pieces at hbody hlast
    rw [hbody, inner_append_idle pieces htail] at hcomponents
    cases pieces using List.reverseRecOn with
    | nil =>
        have hend := congrArg List.getLast? hcomponents
        rcases lead_cases path.toList with hfirst | hfirst | hfirst
        all_goals simp [hfirst, inner] at hend
    | append_singleton before piece =>
        have hpiece := hlast piece List.getLast?_concat
        have hone : inner [piece] = [component piece] := inner_cons hpiece []
        rw [inner_append, hone, ← List.append_assoc] at hcomponents
        have hname := (List.cons.inj (List.append_inj' hcomponents rfl).2).1
        by_cases hdots : piece = ['.', '.']
        · rw [hdots] at hname
          cases hname
        · rw [component, if_neg (by simpa using hdots), Component.named.injEq] at hname
          refine ⟨(_, before, piece),
            splitName?_eq_some_iff.mpr ⟨rfl, hpiece, hdots, tail, ?_, htail⟩, ?_⟩
          · rw [hbody, List.append_assoc]
            rfl
          · rw [hname]
            exact String.ofList_toList

/-- It has no slash. -/
theorem not_mem_of_fileName? {name : String} (h : fileName? path = some name) :
    '/' ∉ name.toList := by
  obtain ⟨⟨first, before, piece⟩, hsplit, rfl⟩ := Option.map_eq_some_iff.mp h
  obtain ⟨-, -, -, tail, hbody, -⟩ := splitName?_eq_some_iff.mp hsplit
  rw [String.toList_ofList]
  have hmem : piece ∈ splitAt '/' path.toList := by
    rw [splitAt_lead, hbody]
    simp
  exact not_mem_of_mem_splitAt hmem

end CodeIndex.Path
