import CodeIndex.Proofs.Render.Kept
import CodeIndex.Tool

/-!
# Answers that were cut

A text over its budget is shown up to the cut, without the blanks at its end, and a notice follows
with two numbers.  The notice can be told from the text in front of it, so an answer that was cut
says by itself what it shows and what it counts: it shows the part that is kept without its trailing
blanks, and it counts the part with them.

* `append_truncationNotice_inj` : what stands in front of a notice, and its numbers.
* `truncate_eq_iff` : an answer that was cut.
* `truncate_cuts` : the cut respects the budget and grows with it.
* `truncate_wholeLines` : the whole lines that an answer keeps.
* `truncate_counts` : the numbers of the notice.
-/

namespace CodeIndex

namespace Render

open Text

variable {text shown : String} {budget n total : Nat}

/-! ## The notice -/

/-- The notice behind its bracket. -/
def noticeBody (n total : Nat) : List Char :=
  "Output truncated: showing ".toList ++ (Nat.toDigits 10 n ++ ' ' :: ("of ".toList ++
    (Nat.toDigits 10 total ++ ' ' :: "characters. Narrow the query to see more.]".toList)))

/-- A notice is an empty line and a text in brackets. -/
theorem toList_truncationNotice (n total : Nat) :
    (truncationNotice n total).toList = ['\n', '\n'] ++ '[' :: noticeBody n total := by
  have happend : ∀ a b c d e : String, (a ++ b ++ c ++ d ++ e).toList
      = a.toList ++ (b.toList ++ (c.toList ++ (d.toList ++ e.toList))) := by
    intro a b c d e
    simp only [String.toList_append, List.append_assoc]
  have hdigits : ∀ k : Nat, (toString k).toList = Nat.toDigits 10 k := by
    intro k
    rw [Nat.toString_eq_ofList_toDigits, String.toList_ofList]
  have hopen : "\n\n[Output truncated: showing ".toList
      = ['\n', '\n'] ++ '[' :: "Output truncated: showing ".toList := rfl
  have hof : " of ".toList = ' ' :: "of ".toList := rfl
  have hclose : " characters. Narrow the query to see more.]".toList
      = ' ' :: "characters. Narrow the query to see more.]".toList := rfl
  refine (happend _ _ _ _ _).trans ?_
  rw [hdigits, hdigits, hopen, hof, hclose, List.append_assoc]
  rfl

/-- Written numbers consist of digits. -/
theorem not_mem_toDigits {c : Char} (hc : c.isDigit = false) (n : Nat) :
    c ∉ Nat.toDigits 10 n := by
  intro hmem
  have hdigit := Nat.isDigit_of_mem_toDigits (by omega) (by omega) hmem
  rw [hc] at hdigit
  cases hdigit

/-- A number is read up to the blank behind it. -/
theorem toDigits_append_inj {n n' : Nat} {rest rest' : List Char}
    (h : Nat.toDigits 10 n ++ ' ' :: rest = Nat.toDigits 10 n' ++ ' ' :: rest') :
    n = n' ∧ rest = rest' := by
  have hsplit : ∀ k more, splitOnce? ' ' (Nat.toDigits 10 k ++ ' ' :: more)
      = some (Nat.toDigits 10 k, more) := fun k more =>
    splitOnce?_eq_some_iff.mpr ⟨rfl, not_mem_toDigits (by decide) k⟩
  have hparts := hsplit n rest
  rw [h, hsplit n' rest', Option.some.injEq, Prod.mk.injEq] at hparts
  refine ⟨?_, hparts.2.symm⟩
  rw [← Nat.ofDigitChars_ten_toDigits (n := n), ← hparts.1, Nat.ofDigitChars_ten_toDigits]

/-- The two numbers of a notice are known from its text. -/
theorem noticeBody_inj {n n' total total' : Nat} (h : noticeBody n total = noticeBody n' total') :
    n = n' ∧ total = total' := by
  obtain ⟨hshown, hrest⟩ := toDigits_append_inj (List.append_cancel_left h)
  exact ⟨hshown, (toDigits_append_inj (List.append_cancel_left hrest)).1⟩

/-- The text of a notice opens no bracket. -/
theorem bracket_not_mem_noticeBody (n total : Nat) : '[' ∉ noticeBody n total := by
  have hdigits := not_mem_toDigits (c := '[') (by decide)
  have hblank : '[' ≠ ' ' := by decide
  unfold noticeBody
  apply List.not_mem_append (by decide)
  apply List.not_mem_append (hdigits n)
  apply List.not_mem_cons_of_ne_of_not_mem hblank
  apply List.not_mem_append (by decide)
  apply List.not_mem_append (hdigits total)
  apply List.not_mem_cons_of_ne_of_not_mem hblank
  decide

/-- **A notice can be told from what stands in front of it**, and its numbers can be read off. -/
theorem append_truncationNotice_inj {shown' : String} {n' total' : Nat}
    (h : shown ++ truncationNotice n total = shown' ++ truncationNotice n' total') :
    shown = shown' ∧ n = n' ∧ total = total' := by
  have hsplit : ∀ (s : String) (k t : Nat), splitLast? '[' (s ++ truncationNotice k t).toList
      = some (s.toList ++ ['\n', '\n'], noticeBody k t) := by
    intro s k t
    rw [splitLast?_eq_some_iff, String.toList_append, toList_truncationNotice]
    exact ⟨by simp, bracket_not_mem_noticeBody k t⟩
  have hparts := hsplit shown n total
  rw [h, hsplit shown' n' total', Option.some.injEq, Prod.mk.injEq] at hparts
  have htext : shown'.toList = shown.toList := List.append_cancel_right hparts.1
  exact ⟨(String.toList_inj.mp htext).symm, noticeBody_inj hparts.2.symm⟩

/-! ## Answers -/

/-- A text within the budget is left as it is. -/
theorem truncate_of_fits (h : text.length ≤ budget) : truncate text budget = text :=
  truncate_of_le (by rwa [String.length_toList])

/-- A longer text is cut, trimmed and followed by the notice. -/
theorem truncate_of_lt (h : budget < text.length) :
    truncate text budget = String.ofList (trimEnd (kept budget text.toList))
      ++ truncationNotice (kept budget text.toList).length text.length := by
  simp only [truncate, String.length_toList]
  rw [if_neg (by omega)]

/-- **An answer that was cut** shows what is kept without its trailing blanks, and counts it with
them. -/
theorem truncate_eq_iff (h : budget < text.length) :
    truncate text budget = shown ++ truncationNotice n total ↔
      shown.toList = trimEnd (kept budget text.toList) ∧
        n = (kept budget text.toList).length ∧ total = text.length := by
  rw [truncate_of_lt h]
  constructor
  · intro hnotice
    obtain ⟨rfl, rfl, rfl⟩ := append_truncationNotice_inj hnotice
    exact ⟨String.toList_ofList, rfl, rfl⟩
  · rintro ⟨hshown, rfl, rfl⟩
    rw [← hshown, String.ofList_toList]

/-- What an answer shows of a text: all of it if the text is within the budget, and otherwise what
stands in front of the notice. -/
def Shows (text : String) (budget : Nat) (shown : String) : Prop :=
  if text.length ≤ budget then truncate text budget = shown
  else ∃ n total, truncate text budget = shown ++ truncationNotice n total

/-- The shown part of a text that was cut: a beginning of it within the budget, that holds nothing
of the line behind the last line end inside the budget.  It is what was cut out at byte offsets
between characters, without the blanks at its end. -/
structure IsCut (budget : Nat) (text shown : String) : Prop where
  start : ∃ rest, text = shown ++ rest
  within : shown.length ≤ budget
  whole : ∀ before after, text.toList.take budget = before ++ '\n' :: after → '\n' ∉ after →
    shown.toList <+: before
  sliced : ∃ part, keptAtOffsets? budget text.toList = some part ∧ shown.toList = trimEnd part

/-- What is kept and trimmed is a cut. -/
theorem isCut_of_toList (h : shown.toList = trimEnd (kept budget text.toList)) :
    IsCut budget text shown := by
  have hkept : shown.toList <+: kept budget text.toList := by
    rw [h]
    exact trimEnd_isPrefix _
  constructor
  · obtain ⟨rest, hrest⟩ := hkept.trans (kept_isPrefix budget text.toList)
    refine ⟨String.ofList rest, ?_⟩
    rw [← String.toList_inj, String.toList_append, String.toList_ofList, hrest]
  · have hlength := hkept.length_le
    have hbudget := length_kept_le budget text.toList
    rw [String.length_toList] at hlength
    omega
  · intro before after htake hafter
    rwa [kept_of_newline htake hafter] at hkept
  · exact ⟨kept budget text.toList, keptAtOffsets?_eq budget text.toList, h⟩

/-- What is shown is all of the text or what is kept without its trailing blanks. -/
theorem Shows.toList_eq (h : Shows text budget shown) :
    shown.toList = if text.length ≤ budget then text.toList
      else trimEnd (kept budget text.toList) := by
  unfold Shows at h
  split at h
  · rename_i hfits
    rw [if_pos hfits, ← h, truncate_of_fits hfits]
  · rename_i hlong
    obtain ⟨n, total, hcut⟩ := h
    rw [if_neg hlong]
    exact ((truncate_eq_iff (by omega)).mp hcut).1

/-- **A larger budget shows more.** -/
theorem Shows.mono {more : Nat} {longer : String} (hbudget : budget ≤ more)
    (h : Shows text budget shown) (hmore : Shows text more longer) :
    shown.toList <+: longer.toList := by
  rw [h.toList_eq, hmore.toList_eq]
  split
  · rename_i hfits
    rw [if_pos (by omega)]
  · split
    · exact (trimEnd_isPrefix _).trans (kept_isPrefix budget text.toList)
    · exact trimEnd_mono (kept_mono hbudget text.toList)

/-- A longer text is answered with a cut and a notice. -/
theorem exists_cut (h : budget < text.length) : ∃ shown n,
    truncate text budget = shown ++ truncationNotice n text.length ∧ IsCut budget text shown := by
  refine ⟨_, _, truncate_of_lt h, isCut_of_toList String.toList_ofList⟩

/-- An answer of a tool is the answer of its request, cut to the budget. -/
theorem exists_request {ctx : Context} {name answer : String} {args : Arguments}
    (h : Tool.call ctx name args = .ok answer) : ∃ request, Tool.request name args = .ok request ∧
      truncate (request.answer ctx) ctx.config.output.maxChars = answer := by
  rw [Tool.call] at h
  cases hrequest : Tool.request name args with
  | error e =>
      rw [hrequest] at h
      cases h
  | ok request =>
      rw [hrequest] at h
      exact ⟨request, rfl, Except.ok.inj h⟩

/-- **The cut respects the budget and grows with it.**  A text within the budget is the answer
itself; otherwise the answer is a shown part and the notice, where the part is a beginning of the
text within the budget without anything of the line that the budget cuts through.  What is shown
under a budget is the beginning of what is shown under a larger one.  So each answer of a tool fits
the configured budget or is such a cut of the full answer. -/
theorem truncate_cuts :
    (∀ text budget, text.length ≤ budget → truncate text budget = text) ∧
    (∀ text budget, budget < text.length → ∃ shown n,
      truncate text budget = shown ++ truncationNotice n text.length ∧ IsCut budget text shown) ∧
    (∀ text budget more shown longer, budget ≤ more → Shows text budget shown →
      Shows text more longer → shown.toList <+: longer.toList) ∧
    (∀ (ctx : Context) name args answer, Tool.call ctx name args = .ok answer →
      ∃ request, Tool.request name args = .ok request ∧
        let full := request.answer ctx
        let budget := ctx.config.output.maxChars
        full.length ≤ budget ∧ answer = full ∨
          budget < full.length ∧ ∃ shown n,
            answer = shown ++ truncationNotice n full.length ∧ IsCut budget full shown) := by
  refine ⟨fun text budget h => truncate_of_fits h, fun text budget h => exists_cut h,
    fun text budget more shown longer hbudget h hmore => h.mono hbudget hmore, ?_⟩
  intro ctx name args answer hcall
  obtain ⟨request, hrequest, rfl⟩ := exists_request hcall
  refine ⟨request, hrequest, ?_⟩
  by_cases hfits : (request.answer ctx).length ≤ ctx.config.output.maxChars
  · exact .inl ⟨hfits, truncate_of_fits hfits⟩
  · have hlong : ctx.config.output.maxChars < (request.answer ctx).length := by omega
    exact .inr ⟨hlong, exists_cut hlong⟩

/-- Two lines of letters of two bytes each, where the budget cuts the second line, and a tool's
answer that ten characters do not hold. -/
theorem truncate_cuts_letters :
    let ctx : Context := ⟨Snapshot.empty ⟨⟨2024, 1, 2⟩, 3, 4, 0⟩,
      { output := { maxChars := 10 } }, "/srv/src"⟩
    (8 < "ééééé\nééééé".length ∧ ∃ shown n, truncate "ééééé\nééééé" 8
      = shown ++ truncationNotice n "ééééé\nééééé".length ∧ IsCut 8 "ééééé\nééééé" shown) ∧
    ("ééééé\nééééé".length ≤ 11 ∧ truncate "ééééé\nééééé" 11 = "ééééé\nééééé") ∧
    (Shows "ééééé\nééééé" 8 "ééééé" ∧ Shows "ééééé\nééééé" 11 "ééééé\nééééé" ∧
      "ééééé".toList <+: "ééééé\nééééé".toList) ∧
    (Tool.call ctx "list_events" (Dict.ofList []) = .ok (truncate Request.emptyIndex 10) ∧
      10 < Request.emptyIndex.length ∧ ∃ shown n, truncate Request.emptyIndex 10
        = shown ++ truncationNotice n Request.emptyIndex.length ∧
        IsCut 10 Request.emptyIndex shown) := by
  intro ctx
  obtain ⟨hwhole, hcut, hmono, htool⟩ := truncate_cuts
  have hshort : 8 < "ééééé\nééééé".length := by decide
  have hfits : "ééééé\nééééé".length ≤ 11 := by decide
  have hless : Shows "ééééé\nééééé" 8 "ééééé" := by
    rw [Shows, if_neg (by omega)]
    exact ⟨5, 11, (truncate_eq_iff hshort).mpr (by decide)⟩
  have hall : Shows "ééééé\nééééé" 11 "ééééé\nééééé" := by
    rw [Shows, if_pos hfits]
    exact hwhole _ _ hfits
  have hrequest : Tool.request "list_events" (Dict.ofList []) = .ok (.events none none) := by
    decide
  have hcall : Tool.call ctx "list_events" (Dict.ofList [])
      = .ok (truncate Request.emptyIndex 10) := by
    rw [Tool.call, hrequest]
    rfl
  have hlong : 10 < Request.emptyIndex.length := by decide
  refine ⟨⟨hshort, hcut _ _ hshort⟩, ⟨hfits, hwhole _ _ hfits⟩,
    ⟨hless, hall, hmono _ _ _ _ _ (by omega) hless hall⟩, hcall, hlong, ?_⟩
  obtain ⟨request, hr, hanswer⟩ := htool ctx _ _ _ hcall
  rw [hrequest, Except.ok.injEq] at hr
  subst hr
  rcases hanswer with ⟨hsmall, -⟩ | ⟨-, hparts⟩
  · exact absurd hsmall (Nat.not_le_of_lt hlong)
  · exact hparts

/-! ## Whole lines -/

/-- **The whole lines that an answer keeps.**  A text is over its budget and one of its lines ends
among the characters that the budget allows or directly behind them.  The part that is kept is the
longest beginning within the budget with a line end behind it, unless a line ends inside the budget
and another one exactly where the budget does: the search for the cut does not look at the first
character over the budget.  It is always the longest one whose line end is inside the budget. -/
theorem truncate_wholeLines (hlong : budget < text.length)
    (hline : '\n' ∈ text.toList.take (budget + 1)) :
    ∃ part, truncate text budget
        = String.ofList (trimEnd part) ++ truncationNotice part.length text.length ∧
      part <+: text.toList ∧
      (WholeLines budget text.toList part ↔
        ¬('\n' ∈ text.toList.take budget ∧ text.toList[budget]? = some '\n')) ∧
      ('\n' ∈ text.toList.take budget → WholeLines (budget - 1) text.toList part) :=
  ⟨kept budget text.toList, truncate_of_lt hlong, kept_isPrefix budget text.toList,
    wholeLines_kept_iff hline, wholeLines_kept⟩

/-- A budget that cuts through the second of three lines. -/
theorem truncate_wholeLines_second :
    4 < "ab\ncd\nef".length ∧ '\n' ∈ "ab\ncd\nef".toList.take 5 ∧
      ∃ part, truncate "ab\ncd\nef" 4
          = String.ofList (trimEnd part) ++ truncationNotice part.length 8 ∧
        WholeLines 4 "ab\ncd\nef".toList part := by
  have hlong : 4 < "ab\ncd\nef".length := by decide
  have hline : '\n' ∈ "ab\ncd\nef".toList.take (4 + 1) := by decide
  obtain ⟨part, hcut, -, hwhole, -⟩ := truncate_wholeLines hlong hline
  exact ⟨hlong, hline, part, hcut, hwhole.mpr (by decide)⟩

/-- A line that ends exactly where the budget does is dropped with its predecessor's line end: two
characters are kept, although five of them are whole lines within the budget. -/
theorem truncate_drops_line :
    5 < "ab\ncd\nef".length ∧ '\n' ∈ "ab\ncd\nef".toList.take (5 + 1) ∧
      truncate "ab\ncd\nef" 5 = "ab" ++ truncationNotice 2 8 ∧
      ¬∃ part, truncate "ab\ncd\nef" 5
          = String.ofList (trimEnd part) ++ truncationNotice part.length 8 ∧
        WholeLines 5 "ab\ncd\nef".toList part := by
  have hlong : 5 < "ab\ncd\nef".length := by decide
  have hcut : truncate "ab\ncd\nef" 5 = "ab" ++ truncationNotice 2 8 :=
    (truncate_eq_iff hlong).mpr (by decide)
  refine ⟨hlong, by decide, hcut, ?_⟩
  rintro ⟨part, hpart, hwhole⟩
  have hlength := (append_truncationNotice_inj (hcut.symm.trans hpart)).2.1
  have hsecond := hwhole.longest "ab\ncd".toList (by decide) (by decide)
  rw [← hlength] at hsecond
  revert hsecond
  decide

/-! ## The numbers of the notice -/

/-- **The numbers of the notice.**  An answer that was cut shows one part and has one notice, whose
second number is the length of the whole text.  The first one counts the part that was kept: what is
shown and the blanks behind it up to the cut.  So it is the number of characters shown exactly if no
blank stands in front of the cut. -/
theorem truncate_counts (h : budget < text.length) :
    ∃ shown n, truncate text budget = shown ++ truncationNotice n text.length ∧
      (∀ shown' n' total', truncate text budget = shown' ++ truncationNotice n' total' →
        shown' = shown ∧ n' = n ∧ total' = text.length) ∧
      (∃ blanks, text.toList.take n = shown.toList ++ blanks ∧ ∀ c ∈ blanks, isBlank c = true) ∧
      (n = shown.length ↔
        ∀ c, (text.toList.take n).getLast? = some c → isBlank c = false) := by
  have hcut := truncate_of_lt h
  have htake : text.toList.take (kept budget text.toList).length = kept budget text.toList :=
    (List.prefix_iff_eq_take.mp (kept_isPrefix budget text.toList)).symm
  refine ⟨_, _, hcut, ?_, ?_, ?_⟩
  · intro shown' n' total' hnotice
    exact append_truncationNotice_inj (hnotice.symm.trans hcut)
  · rw [htake, String.toList_ofList]
    exact exists_trimEnd _
  · rw [htake, String.length_ofList, eq_comm]
    exact length_trimEnd_eq_iff

/-- A line without blanks at its end is counted as it is shown. -/
theorem truncate_counts_line :
    3 < "ab\ncdef".length ∧ ∃ shown n, truncate "ab\ncdef" 3 = shown ++ truncationNotice n 7 ∧
      n = shown.length := by
  have hlong : 3 < "ab\ncdef".length := by decide
  obtain ⟨shown, n, hcut, hunique, -, hcount⟩ := truncate_counts hlong
  have hline : truncate "ab\ncdef" 3 = "ab" ++ truncationNotice 2 7 :=
    (truncate_eq_iff hlong).mpr (by decide)
  obtain ⟨-, rfl, -⟩ := hunique _ _ _ hline
  have hlast : ∀ c, ("ab\ncdef".toList.take 2).getLast? = some c → isBlank c = false := by
    intro c hc
    cases hc
    decide
  exact ⟨hlong, shown, 2, hcut, hcount.mpr hlast⟩

/-- Two blanks at the end of the first line are counted, but not shown. -/
theorem truncate_counts_blanks :
    6 < "ab  \ncdef".length ∧
      truncate "ab  \ncdef" 6 = "ab" ++ truncationNotice 4 "ab  \ncdef".length ∧
      ¬∃ shown, truncate "ab  \ncdef" 6
        = shown ++ truncationNotice shown.length "ab  \ncdef".length := by
  have hlong : 6 < "ab  \ncdef".length := by decide
  have hcut : truncate "ab  \ncdef" 6 = "ab" ++ truncationNotice 4 "ab  \ncdef".length :=
    (truncate_eq_iff hlong).mpr (by decide)
  refine ⟨hlong, hcut, ?_⟩
  rintro ⟨shown, hshown⟩
  obtain ⟨hpart, hlength, -⟩ := append_truncationNotice_inj (hcut.symm.trans hshown)
  rw [← hpart] at hlength
  revert hlength
  decide

end Render

end CodeIndex
