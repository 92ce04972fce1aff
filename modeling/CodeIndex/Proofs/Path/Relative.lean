import CodeIndex.Proofs.Path.Pieces

/-!
# Paths below a root

A path that is put together from a root and a relative path starts with the components of the root,
whether or not the root ends in a slash, and whatever pieces that say nothing stand in it.  Taking
the root away leaves the pieces of the relative path, so nothing of the root remains.

* `dropComponents_append` : dropping the components of some pieces in front.
* `exists_front` : the pieces of a root stand in front of those of a path joined to it.
* `relativeTo?_eq_some_iff_drop` : a relative path, by the pieces behind the root's components.
* `relativeTo?_of_extends` : a path below a root, relative to it.
-/

namespace CodeIndex.Path

open Text

/-- A path made of a root and a path below it: joined, or with a slash written between them. -/
def Extends (root p path : String) : Prop := path = join root p ∨ path = root ++ "/" ++ p

/-! ## Dropping components -/

/-- A piece that says nothing is passed over. -/
theorem dropComponents_cons_trivial {piece : List Char} (h : isTrivial piece = true)
    {cs : List Component} (hcs : cs ≠ []) (pieces : List (List Char)) :
    dropComponents cs (piece :: pieces) = dropComponents cs pieces := by
  cases cs with
  | nil => exact absurd rfl hcs
  | cons c cs => rw [dropComponents, dropComponents, List.dropWhile_cons_of_pos h]

/-- A piece that says something is taken by its component. -/
theorem dropComponents_cons_component {piece : List Char} (h : isTrivial piece = false)
    (cs : List Component) (pieces : List (List Char)) :
    dropComponents (component piece :: cs) (piece :: pieces) = dropComponents cs pieces := by
  rw [dropComponents, List.dropWhile_cons_of_neg (by rw [h]; exact Bool.false_ne_true)]
  exact if_pos rfl

/-- The components of some pieces in front are dropped with them, except for pieces at their end
that say nothing. -/
theorem dropComponents_append (front rest : List (List Char)) :
    ∃ gap, Idle gap ∧ dropComponents (inner front) (front ++ rest) = some (gap ++ rest) := by
  induction front with
  | nil => exact ⟨[], idle_nil, rfl⟩
  | cons piece front ih =>
      obtain ⟨gap, hgap, hdrop⟩ := ih
      by_cases htrivial : isTrivial piece = true
      · have hinner : inner (piece :: front) = inner front := by
          rw [inner, inner, List.filter_cons_of_neg (by rw [htrivial]; decide)]
        by_cases hnone : inner front = []
        · refine ⟨piece :: front, ?_, ?_⟩
          · rw [inner, List.map_eq_nil_iff, List.filter_eq_nil_iff] at hnone
            intro q hq
            rcases List.mem_cons.mp hq with rfl | hmem
            · exact htrivial
            · simpa using hnone q hmem
          · rw [hinner, hnone]
            rfl
        · refine ⟨gap, hgap, ?_⟩
          rw [hinner, List.cons_append, dropComponents_cons_trivial htrivial hnone, hdrop]
      · rw [Bool.not_eq_true] at htrivial
        refine ⟨gap, hgap, ?_⟩
        rw [inner_cons htrivial, List.cons_append, dropComponents_cons_component htrivial, hdrop]

/-! ## Roots -/

/-- A path relative to a root is put together from the pieces behind the root's components. -/
theorem relativeTo?_eq_some_iff_drop {path root rest : String} (hroot : root ≠ "") :
    relativeTo? path root = some rest ↔ ∃ cs left,
      components root = (lead path.toList).1.toList ++ cs ∧
        dropComponents cs (lead path.toList).2 = some left ∧
        rest = String.ofList (Text.join ['/'] (trimTrivial left)) := by
  rw [relativeTo?]
  generalize lead path.toList = parts
  obtain ⟨first, body⟩ := parts
  have hmap : ∀ cs, (dropComponents cs body).map
      (fun pieces => String.ofList (Text.join ['/'] (trimTrivial pieces))) = some rest ↔
        ∃ left, dropComponents cs body = some left ∧
          rest = String.ofList (Text.join ['/'] (trimTrivial left)) := by
    intro cs
    rw [Option.map_eq_some_iff]
    exact exists_congr fun left => and_congr_right fun _ => eq_comm
  cases hcomponents : components root with
  | nil => exact absurd hcomponents (components_ne_nil hroot)
  | cons c cs =>
      cases first with
      | none => simpa using hmap (c :: cs)
      | some front =>
          by_cases hfront : front = c
          · simpa [hfront] using hmap cs
          · simp [hfront, Ne.symm hfront]

/-- The pieces of a root that ends in no slash, or of one without its last slash, stand in front of
those of every path that is joined to it. -/
theorem exists_front {root : String} (hroot : root ≠ "") :
    ∃ front, front ≠ [] ∧
      (endsWith ['/'] root.toList = false ∧ splitAt '/' root.toList = front ∨
        endsWith ['/'] root.toList = true ∧ splitAt '/' root.toList = front ++ [[]]) ∧
      ∀ p, isAbsolute p = false →
        splitAt '/' (join root p).toList = front ++ splitAt '/' p.toList := by
  have hempty : root.isEmpty = false := by simpa using hroot
  cases hend : endsWith ['/'] root.toList with
  | true =>
      obtain ⟨front, hfront⟩ := List.isSuffixOf_iff_suffix.mp hend
      refine ⟨splitAt '/' front, splitAt_ne_nil _ _, .inr ⟨rfl, ?_⟩, fun p hp => ?_⟩
      · rw [← hfront, splitAt_append_cons]
        rfl
      · rw [join, if_neg (by rw [hp]; exact Bool.false_ne_true),
          if_pos (by rw [hend, Bool.or_true]), String.toList_append, ← hfront, List.append_assoc,
          List.singleton_append, splitAt_append_cons]
  | false =>
      refine ⟨splitAt '/' root.toList, splitAt_ne_nil _ _, .inl ⟨rfl, rfl⟩, fun p hp => ?_⟩
      rw [join, if_neg (by rw [hp]; exact Bool.false_ne_true),
        if_neg (by rw [hempty, hend]; exact Bool.false_ne_true), ← splitAt_append_cons]
      simp

/-- The pieces of a root, but for one that says nothing, stand in front of those of a path below
it. -/
theorem exists_pieces_of_extends {root p path : String} (hp : isAbsolute p = false)
    (h : Extends root p path) (hroot : root ≠ "") :
    ∃ front tail, Idle tail ∧ splitAt '/' root.toList = front ++ tail ∧ front ≠ [] ∧
        splitAt '/' path.toList = front ++ splitAt '/' p.toList := by
  rcases h with rfl | rfl
  · obtain ⟨front, hne, ⟨-, hpieces⟩ | ⟨-, hpieces⟩, hjoin⟩ := exists_front hroot
    · exact ⟨front, [], idle_nil, by rw [hpieces, List.append_nil], hne, hjoin p hp⟩
    · exact ⟨front, [[]], by simp [Idle, isTrivial], hpieces, hne, hjoin p hp⟩
  · refine ⟨splitAt '/' root.toList, [], idle_nil, by simp, splitAt_ne_nil _ _, ?_⟩
    rw [← splitAt_append_cons]
    simp

/-- The path below a root, relative to it, is the relative path without the pieces at either end
that say nothing. -/
theorem relativeTo?_of_extends {root p path : String} (hroot : root ≠ "")
    (hp : isAbsolute p = false) (h : Extends root p path) :
    relativeTo? path root
      = some (String.ofList (Text.join ['/'] (trimTrivial (splitAt '/' p.toList)))) := by
  obtain ⟨front, tail, htail, hpieces, hfront, hpath⟩ := exists_pieces_of_extends hp h hroot
  obtain ⟨first, body, -, hlead⟩ := leadOf_append hfront
  have hleadRoot : lead root.toList = (first, body ++ tail) := by
    rw [lead_eq, hpieces]
    apply hlead
    rw [← hpieces]
    exact splitAt_ne_singleton_nil (mt String.toList_eq_nil_iff.mp hroot)
  have hleadPath : lead path.toList = (first, body ++ splitAt '/' p.toList) := by
    rw [lead_eq, hpath]
    exact hlead _ (append_ne_singleton_nil hfront (splitAt_ne_nil '/' p.toList))
  have hcomponents : components root = first.toList ++ inner body := by
    rw [components_eq, hleadRoot, inner_append_idle body htail]
  obtain ⟨gap, hgap, hdrop⟩ := dropComponents_append body (splitAt '/' p.toList)
  refine (relativeTo?_eq_some_iff_drop hroot).mpr ⟨inner body, gap ++ splitAt '/' p.toList, ?_⟩
  rw [hleadPath, trimTrivial_append hgap]
  exact ⟨hcomponents, hdrop, rfl⟩

end CodeIndex.Path
