import Mathlib.Data.List.TakeWhile
import CodeIndex.Proofs.Text.Pieces

/-!
# Line breaks among blanks

A run of blanks with a line break in it separates lines, and how many blanks it has is a matter
of layout.  `squeeze` writes each such run as one line break and leaves all other text alone,
so two texts with the same squeezed form differ in the layout of their lines only.

A text is read here as a sequence of characters that are not blank and of whole runs of blanks.
`runs_induction` is that reading as a way to prove things.

* `squeeze_run` : a run of blanks is squeezed by itself.
* `squeeze_append` : so are two texts whose seam is not inside a run.
* `squeeze_reverse` : squeezing does not depend on the direction of reading.
* `trimStart_squeeze`, `trim_squeeze`, `words_squeeze` : the cuts at blanks agree with it.
* `squeeze_eq_self` : a text without line breaks is its own squeezed form.
-/

namespace CodeIndex.Text

/-- Do the blanks at the start of a text hold a line break? -/
def breaks (cs : List Char) : Bool := (cs.takeWhile isBlank).contains '\n'

/-- Put a character in front of a squeezed text. -/
def squeezeCons (c : Char) (cs : List Char) : List Char :=
  if c = '\n' then '\n' :: trimStart cs
  else if isBlank c && breaks cs then cs
  else c :: cs

/-- Write each run of blanks that holds a line break as one line break. -/
def squeeze (cs : List Char) : List Char := cs.foldr squeezeCons []

/-- A run of blanks, squeezed. -/
def gap (run : List Char) : List Char := if '\n' ∈ run then ['\n'] else run

/-- The text does not start with a blank. -/
def Flush (cs : List Char) : Prop := ∀ c, cs.head? = some c → isBlank c = false

@[simp] theorem squeeze_nil : squeeze [] = [] := rfl

/-- A text is squeezed from its end. -/
theorem squeeze_cons (c : Char) (cs : List Char) :
    squeeze (c :: cs) = squeezeCons c (squeeze cs) := rfl

@[simp] theorem flush_nil : Flush [] := by simp [Flush]

@[simp] theorem flush_cons {c : Char} {cs : List Char} :
    Flush (c :: cs) ↔ isBlank c = false := by simp [Flush]

/-- Nothing blank is left in front. -/
theorem flush_trimStart (cs : List Char) : Flush (trimStart cs) := by
  intro c hc
  have := List.head?_dropWhile_not isBlank cs
  rw [← trimStart, hc] at this
  simpa using this

/-- Nothing is dropped in front of what is not blank. -/
theorem Flush.trimStart_eq {cs : List Char} (h : Flush cs) : trimStart cs = cs := by
  cases cs with
  | nil => rfl
  | cons c cs => exact List.dropWhile_cons_of_neg (by simp [flush_cons.mp h])

/-- A blank is no other character. -/
theorem ne_of_isBlank {c d : Char} (hc : isBlank c = true) (hd : isBlank d = false) : c ≠ d := by
  intro h
  rw [h, hd] at hc
  cases hc

/-- What follows blanks is reached by dropping them. -/
theorem trimStart_run {run rest : List Char} (hrun : ∀ c ∈ run, isBlank c = true)
    (hrest : Flush rest) : trimStart (run ++ rest) = rest := by
  rw [trimStart, List.dropWhile_append_of_pos hrun]
  exact hrest.trimStart_eq

/-- The blanks in front of what is not blank are the run. -/
theorem takeWhile_run {run rest : List Char} (hrun : ∀ c ∈ run, isBlank c = true)
    (hrest : Flush rest) : (run ++ rest).takeWhile isBlank = run := by
  rw [List.takeWhile_append_of_pos hrun]
  cases rest with
  | nil => simp
  | cons c rest => simp [flush_cons.mp hrest]

/-- A text is its leading blanks and what follows them. -/
theorem exists_run (cs : List Char) :
    ∃ run, (∀ c ∈ run, isBlank c = true) ∧ cs = run ++ trimStart cs := by
  refine ⟨cs.takeWhile isBlank, ?_, ?_⟩
  · intro c hc
    exact List.mem_takeWhile_imp hc
  · exact (List.takeWhile_append_dropWhile).symm

/-- **Induction on characters and runs.**  A text is empty, or starts with a character that is
not blank, or starts with a whole run of blanks. -/
@[elab_as_elim]
theorem runs_induction {motive : List Char → Prop} (nil : motive [])
    (char : ∀ c rest, isBlank c = false → motive rest → motive (c :: rest))
    (run : ∀ run rest, run ≠ [] → (∀ c ∈ run, isBlank c = true) → Flush rest →
      motive rest → motive (run ++ rest)) : ∀ cs, motive cs
  | [] => nil
  | c :: cs => by
    by_cases hc : isBlank c = true
    · obtain ⟨lead, hlead, hcs⟩ := exists_run cs
      have hlen : (trimStart cs).length ≤ cs.length := (List.dropWhile_suffix _).length_le
      rw [hcs, ← List.cons_append]
      refine run (c :: lead) _ (by simp) ?_ (flush_trimStart cs)
        (runs_induction nil char run (trimStart cs))
      intro d hd
      rcases List.mem_cons.mp hd with rfl | hd
      · exact hc
      · exact hlead d hd
    · exact char c cs (by simpa using hc) (runs_induction nil char run cs)
termination_by cs => cs.length

/-! ## Runs -/

/-- A squeezed run is blank. -/
theorem isBlank_gap {run : List Char} (hrun : ∀ c ∈ run, isBlank c = true) :
    ∀ c ∈ gap run, isBlank c = true := by
  unfold gap
  split
  · intro c hc
    rw [List.mem_singleton.mp hc]
    rfl
  · exact hrun

/-- A run is squeezed to something. -/
theorem gap_ne_nil {run : List Char} (h : run ≠ []) : gap run ≠ [] := by
  unfold gap
  split
  · simp
  · exact h

/-- A squeezed run keeps that it breaks the line. -/
theorem newline_mem_gap {run : List Char} : '\n' ∈ gap run ↔ '\n' ∈ run := by
  unfold gap
  split <;> simp_all

/-- Runs are squeezed alike from both ends. -/
theorem gap_reverse (run : List Char) : gap run.reverse = (gap run).reverse := by
  simp only [gap, List.mem_reverse]
  split <;> simp

/-- What is not blank stays. -/
theorem squeeze_cons_of_not_blank {c : Char} (hc : isBlank c = false) (cs : List Char) :
    squeeze (c :: cs) = c :: squeeze cs := by
  have hne : c ≠ '\n' := by
    intro h
    rw [h] at hc
    exact absurd hc (by decide)
  rw [squeeze_cons, squeezeCons, if_neg hne, hc]
  rfl

/-- No blank comes in front. -/
theorem Flush.squeeze {cs : List Char} (h : Flush cs) : Flush (squeeze cs) := by
  cases cs with
  | nil => exact flush_nil
  | cons c cs =>
      rw [squeeze_cons_of_not_blank (flush_cons.mp h)]
      exact flush_cons.mpr (flush_cons.mp h)

/-- **A run of blanks is squeezed by itself.** -/
theorem squeeze_run {run rest : List Char} (hrun : ∀ c ∈ run, isBlank c = true)
    (hrest : Flush rest) : squeeze (run ++ rest) = gap run ++ squeeze rest := by
  induction run with
  | nil => rfl
  | cons c run ih =>
      have hrun' : ∀ d ∈ run, isBlank d = true := fun d hd => hrun d (List.mem_cons_of_mem _ hd)
      rw [List.cons_append, squeeze_cons, ih hrun', squeezeCons,
        trimStart_run (isBlank_gap hrun') hrest.squeeze, breaks,
        takeWhile_run (isBlank_gap hrun') hrest.squeeze]
      by_cases hc : c = '\n'
      · simp [hc, gap]
      · by_cases hbreak : '\n' ∈ run
        · simp [hc, gap, hbreak, hrun c List.mem_cons_self]
        · simp [hc, gap, hbreak, Ne.symm hc]

/-- A text is squeezed at its leading blanks and behind them. -/
theorem squeeze_eq (cs : List Char) :
    squeeze cs = gap (cs.takeWhile isBlank) ++ squeeze (trimStart cs) :=
  calc squeeze cs = squeeze (cs.takeWhile isBlank ++ trimStart cs) :=
        congrArg squeeze List.takeWhile_append_dropWhile.symm
    _ = gap (cs.takeWhile isBlank) ++ squeeze (trimStart cs) :=
        squeeze_run (fun _ => List.mem_takeWhile_imp) (flush_trimStart cs)

/-- A text of blanks, squeezed. -/
theorem squeeze_blank {run : List Char} (hrun : ∀ c ∈ run, isBlank c = true) :
    squeeze run = gap run := by
  have := squeeze_run hrun flush_nil
  rwa [List.append_nil, squeeze_nil, List.append_nil] at this

/-- A text that starts with a blank still does. -/
theorem exists_squeeze_cons {c : Char} (hc : isBlank c = true) (cs : List Char) :
    ∃ d rest, isBlank d = true ∧ squeeze (c :: cs) = d :: rest := by
  have heq := squeeze_eq (c :: cs)
  have hne : (c :: cs).takeWhile isBlank ≠ [] := by simp [hc]
  cases hgap : gap ((c :: cs).takeWhile isBlank) with
  | nil => exact absurd hgap (gap_ne_nil hne)
  | cons d rest =>
      refine ⟨d, rest ++ squeeze (trimStart (c :: cs)), ?_, by rw [heq, hgap]; rfl⟩
      exact isBlank_gap (fun _ => List.mem_takeWhile_imp) d (by rw [hgap]; exact List.mem_cons_self)

/-- Only nothing is squeezed to nothing. -/
@[simp] theorem squeeze_eq_nil {cs : List Char} : squeeze cs = [] ↔ cs = [] := by
  cases cs with
  | nil => simp
  | cons c cs =>
      by_cases hc : isBlank c = true
      · obtain ⟨d, rest, -, heq⟩ := exists_squeeze_cons hc cs
        simp [heq]
      · simp [squeeze_cons_of_not_blank (by simpa using hc)]

@[simp] theorem isEmpty_squeeze (cs : List Char) : (squeeze cs).isEmpty = cs.isEmpty := by
  rw [Bool.eq_iff_iff, List.isEmpty_iff, List.isEmpty_iff, squeeze_eq_nil]

/-- The first character stays the first, or is a blank in both texts. -/
theorem head?_squeeze {c : Char} (hc : isBlank c = false) {cs : List Char} :
    (squeeze cs).head? = some c ↔ cs.head? = some c := by
  cases cs with
  | nil => simp
  | cons d cs =>
      by_cases hd : isBlank d = true
      · obtain ⟨e, rest, he, heq⟩ := exists_squeeze_cons hd cs
        simp [heq, ne_of_isBlank hd hc, ne_of_isBlank he hc]
      · simp [squeeze_cons_of_not_blank (by simpa using hd)]

/-- Squeezing leaves the characters that are not blank, and the line breaks. -/
theorem mem_squeeze {c : Char} (hc : isBlank c = false ∨ c = '\n') {cs : List Char} :
    c ∈ squeeze cs ↔ c ∈ cs := by
  induction cs using runs_induction with
  | nil => simp
  | char d rest hd ih => simp [squeeze_cons_of_not_blank hd, ih]
  | run run rest hne hrun hrest ih =>
      rw [squeeze_run hrun hrest, List.mem_append, List.mem_append, ih]
      rcases hc with hc | rfl
      · have hout : c ∉ run := fun hmem => by simp [hrun c hmem] at hc
        have hout' : c ∉ gap run := fun hmem => by simp [isBlank_gap hrun c hmem] at hc
        simp [hout, hout']
      · rw [newline_mem_gap]

/-- A text without line breaks is its own squeezed form. -/
theorem squeeze_eq_self {cs : List Char} (h : '\n' ∉ cs) : squeeze cs = cs := by
  induction cs using runs_induction with
  | nil => rfl
  | char c rest hc ih =>
      rw [squeeze_cons_of_not_blank hc, ih (fun hmem => h (List.mem_cons_of_mem _ hmem))]
  | run run rest hne hrun hrest ih =>
      rw [List.mem_append, not_or] at h
      rw [squeeze_run hrun hrest, ih h.2, gap, if_neg h.1]

/-- A text without blanks is its own squeezed form. -/
theorem squeeze_of_not_blank {cs : List Char} (h : ∀ c ∈ cs, isBlank c = false) :
    squeeze cs = cs :=
  squeeze_eq_self fun hmem => absurd (h _ hmem) (by decide)

/-! ## Texts put together -/

/-- The seam of two texts is not inside a run of blanks. -/
def Seam (a b : List Char) : Prop := Flush b ∨ Flush a.reverse

/-- What is not blank in front stays so with more behind it. -/
theorem Flush.append {a b : List Char} (ha : Flush a) (hb : Flush b) : Flush (a ++ b) := by
  cases a with
  | nil => exact hb
  | cons c a => exact flush_cons.mpr (flush_cons.mp ha)

/-- The start of a text that starts with no blank is no blank. -/
theorem Flush.of_append {a b : List Char} (h : Flush (a ++ b)) : Flush a := by
  cases a with
  | nil => exact flush_nil
  | cons c a => exact flush_cons.mpr (flush_cons.mp h)

/-- Texts are squeezed on their own if no run goes over from one to the other. -/
theorem squeeze_append_flush (a : List Char) {b : List Char} (hb : Flush b) :
    squeeze (a ++ b) = squeeze a ++ squeeze b := by
  induction a using runs_induction with
  | nil => rfl
  | char c rest hc ih =>
      rw [List.cons_append, squeeze_cons_of_not_blank hc, squeeze_cons_of_not_blank hc, ih]
      rfl
  | run run rest hne hrun hrest ih =>
      rw [List.append_assoc, squeeze_run hrun (hrest.append hb), squeeze_run hrun hrest, ih,
        List.append_assoc]

/-- **Two texts are squeezed one by one** if their seam is not inside a run of blanks. -/
theorem squeeze_append {a b : List Char} (h : Seam a b) :
    squeeze (a ++ b) = squeeze a ++ squeeze b := by
  rcases h with hb | ha
  · exact squeeze_append_flush a hb
  · cases hrev : a.reverse with
    | nil =>
        rw [List.reverse_eq_nil_iff.mp hrev]
        rfl
    | cons d init =>
        have hd : isBlank d = false := by
          rw [hrev] at ha
          exact flush_cons.mp ha
        have hflush : ∀ u, Flush (d :: u) := fun u => flush_cons.mpr hd
        have hlast : a = init.reverse ++ [d] := by
          rw [← List.reverse_reverse a, hrev, List.reverse_cons]
        rw [hlast, List.append_assoc, squeeze_append_flush _ (hflush []), List.singleton_append,
          squeeze_append_flush _ (hflush b), squeeze_cons_of_not_blank hd,
          squeeze_cons_of_not_blank hd]
        simp

/-- **Squeezing does not depend on the direction of reading.** -/
theorem squeeze_reverse (cs : List Char) : squeeze cs.reverse = (squeeze cs).reverse := by
  induction cs using runs_induction with
  | nil => rfl
  | char c rest hc ih =>
      rw [List.reverse_cons, squeeze_append_flush _ (flush_cons.mpr hc), ih,
        squeeze_cons_of_not_blank hc, squeeze_cons_of_not_blank hc]
      simp
  | run run rest hne hrun hrest ih =>
      have hseam : Seam rest.reverse run.reverse := .inr (by rwa [List.reverse_reverse])
      have hrev : ∀ c ∈ run.reverse, isBlank c = true :=
        fun c hc => hrun c (List.mem_reverse.mp hc)
      rw [List.reverse_append, squeeze_append hseam, ih, squeeze_blank hrev, gap_reverse,
        squeeze_run hrun hrest, List.reverse_append]

/-! ## Cuts at blanks -/

/-- Dropping the leading blanks agrees with squeezing. -/
theorem trimStart_squeeze (cs : List Char) : trimStart (squeeze cs) = squeeze (trimStart cs) := by
  rw [squeeze_eq cs]
  exact trimStart_run (isBlank_gap fun _ => List.mem_takeWhile_imp) (flush_trimStart cs).squeeze

/-- The squeezed text breaks its first line where the text does. -/
theorem breaks_squeeze (cs : List Char) : breaks (squeeze cs) = breaks cs := by
  rw [squeeze_eq cs, breaks, breaks,
    takeWhile_run (isBlank_gap fun _ => List.mem_takeWhile_imp) (flush_trimStart cs).squeeze,
    Bool.eq_iff_iff]
  simpa using newline_mem_gap

section TakeWhile

variable {p : Char → Bool}

/-- A class without blanks takes the same front. -/
theorem takeWhile_squeeze (hp : ∀ c, p c = true → isBlank c = false) (cs : List Char) :
    (squeeze cs).takeWhile p = cs.takeWhile p := by
  have hblank : ∀ {c}, isBlank c = true → ¬ p c = true := by
    intro c hc hpc
    simp [hp c hpc] at hc
  induction cs with
  | nil => rfl
  | cons c cs ih =>
      by_cases hc : isBlank c = true
      · obtain ⟨d, rest, hd, heq⟩ := exists_squeeze_cons hc cs
        rw [heq, List.takeWhile_cons_of_neg (hblank hd), List.takeWhile_cons_of_neg (hblank hc)]
      · rw [squeeze_cons_of_not_blank (by simpa using hc), List.takeWhile_cons,
          List.takeWhile_cons, ih]

/-- A class without blanks leaves the same rest, squeezed. -/
theorem dropWhile_squeeze (hp : ∀ c, p c = true → isBlank c = false) (cs : List Char) :
    (squeeze cs).dropWhile p = squeeze (cs.dropWhile p) := by
  have hblank : ∀ {c}, isBlank c = true → ¬ p c = true := by
    intro c hc hpc
    simp [hp c hpc] at hc
  induction cs with
  | nil => rfl
  | cons c cs ih =>
      by_cases hc : isBlank c = true
      · obtain ⟨d, rest, hd, heq⟩ := exists_squeeze_cons hc cs
        rw [heq, List.dropWhile_cons_of_neg (hblank hd), List.dropWhile_cons_of_neg (hblank hc),
          heq]
      · have hc' : isBlank c = false := by simpa using hc
        rw [squeeze_cons_of_not_blank hc', List.dropWhile_cons, List.dropWhile_cons, ih]
        split
        · rfl
        · rw [squeeze_cons_of_not_blank hc']

end TakeWhile

/-- A squeezed text is trimmed to the squeezed core. -/
theorem trim_squeeze (cs : List Char) : trim (squeeze cs) = squeeze (trim cs) := by
  simp only [trim, trimEnd, dropTail]
  rw [trimStart_squeeze, ← squeeze_reverse]
  exact (congrArg List.reverse (trimStart_squeeze _)).trans (squeeze_reverse _).symm

theorem trimMatches_squeeze {p : Char → Bool} (hp : ∀ c, p c = true → isBlank c = false)
    (cs : List Char) : trimMatches p (squeeze cs) = squeeze (trimMatches p cs) := by
  simp only [trimMatches, dropTail]
  rw [dropWhile_squeeze hp, ← squeeze_reverse, dropWhile_squeeze hp, squeeze_reverse]

/-- A run of blanks ends a word. -/
theorem wordsFrom_run {run : List Char} (hne : run ≠ []) (hrun : ∀ c ∈ run, isBlank c = true)
    (cur rest : List Char) : wordsFrom cur (run ++ rest)
      = if cur.isEmpty then wordsFrom [] rest else cur :: wordsFrom [] rest := by
  have hmore : ∀ {run : List Char}, (∀ c ∈ run, isBlank c = true) →
      wordsFrom [] (run ++ rest) = wordsFrom [] rest := by
    intro run hrun
    induction run with
    | nil => rfl
    | cons c run ih =>
        rw [List.cons_append, wordsFrom, if_pos (hrun c List.mem_cons_self)]
        exact ih fun d hd => hrun d (List.mem_cons_of_mem _ hd)
  cases run with
  | nil => exact absurd rfl hne
  | cons c run =>
      rw [List.cons_append, wordsFrom, if_pos (hrun c List.mem_cons_self),
        hmore fun d hd => hrun d (List.mem_cons_of_mem _ hd)]

/-- The words stay. -/
theorem words_squeeze (cs : List Char) : words (squeeze cs) = words cs := by
  suffices h : ∀ cur, wordsFrom cur (squeeze cs) = wordsFrom cur cs from h []
  induction cs using runs_induction with
  | nil => exact fun _ => rfl
  | char c rest hc ih =>
      intro cur
      simp only [squeeze_cons_of_not_blank hc, wordsFrom, hc, ih]
  | run run rest hne hrun hrest ih =>
      intro cur
      rw [squeeze_run hrun hrest, wordsFrom_run (gap_ne_nil hne) (isBlank_gap hrun),
        wordsFrom_run hne hrun, ih]

/-! ## Squeezing twice -/

/-- More text behind a break keeps it. -/
theorem breaks_append {a b : List Char} (h : breaks a = true) : breaks (a ++ b) = true := by
  simp only [breaks, List.contains_iff_mem] at h ⊢
  rw [List.takeWhile_append]
  split
  · rename_i hall
    have := List.takeWhile_eq_self_iff.mpr (by
      intro c hc
      exact List.takeWhile_eq_self_iff.mp (List.takeWhile_prefix _ |>.eq_of_length hall) c hc)
    rw [this] at h
    exact List.mem_append_left _ h
  · exact h

/-- A squeezed front can be squeezed with its rest. -/
theorem squeeze_squeezeCons_append (c : Char) (a b : List Char) :
    squeeze (squeezeCons c a ++ b) = squeezeCons c (squeeze (a ++ b)) := by
  by_cases hc : c = '\n'
  · have htrim : trimStart (trimStart a ++ b) = trimStart (a ++ b) := by
      have htwice : (a.dropWhile isBlank).dropWhile isBlank = a.dropWhile isBlank :=
        (flush_trimStart a).trimStart_eq
      simp only [trimStart, List.dropWhile_append, htwice]
    simp only [squeezeCons, hc, if_true, List.cons_append, squeeze_cons]
    rw [trimStart_squeeze, htrim, trimStart_squeeze]
  · simp only [squeezeCons, if_neg hc]
    by_cases hbreak : (isBlank c && breaks a) = true
    · rw [Bool.and_eq_true] at hbreak
      have hsq : breaks (squeeze (a ++ b)) = true := by
        rw [breaks_squeeze]
        exact breaks_append hbreak.2
      simp [hbreak.1, hbreak.2, hsq]
    · rw [if_neg hbreak, List.cons_append, squeeze_cons, squeezeCons, if_neg hc]

/-- Layout inside a text that goes into another is layout of the other. -/
theorem squeeze_squeeze_append (a b : List Char) :
    squeeze (squeeze a ++ b) = squeeze (a ++ b) := by
  induction a with
  | nil => rfl
  | cons c a ih => rw [squeeze_cons, squeeze_squeezeCons_append, ih]; rfl

/-- Squeezing twice is squeezing. -/
theorem squeeze_squeeze (cs : List Char) : squeeze (squeeze cs) = squeeze cs := by
  simpa using squeeze_squeeze_append cs []

/-- Putting squeezed texts together loses only layout. -/
theorem squeeze_append_congr {a a' b b' : List Char} (ha : squeeze a = squeeze a')
    (hb : squeeze b = squeeze b') : squeeze (a ++ b) = squeeze (a' ++ b') := by
  have hfold : ∀ x y : List Char, squeeze (x ++ y) = x.foldr squeezeCons (squeeze y) :=
    fun x y => List.foldr_append
  rw [← squeeze_squeeze_append a, ← squeeze_squeeze_append a', ha, hfold, hfold, hb]

/-! ## The parts around a separator -/

/-- Both sides of a separator are squeezed. -/
theorem splitOnce?_squeeze {sep : Char} (hsep : isBlank sep = false) (cs : List Char) :
    splitOnce? sep (squeeze cs) = (splitOnce? sep cs).map (Prod.map squeeze squeeze) := by
  cases hsplit : splitOnce? sep cs with
  | none =>
      rw [Option.map_none, splitOnce?_eq_none_iff, mem_squeeze (.inl hsep)]
      exact splitOnce?_eq_none_iff.mp hsplit
  | some parts =>
      obtain ⟨before, after⟩ := parts
      obtain ⟨rfl, hout⟩ := splitOnce?_eq_some_iff.mp hsplit
      rw [Option.map_some, Prod.map_apply, splitOnce?_eq_some_iff, mem_squeeze (.inl hsep),
        squeeze_append_flush _ (flush_cons.mpr hsep), squeeze_cons_of_not_blank hsep]
      exact ⟨rfl, hout⟩

/-- Both sides of the last separator are squeezed. -/
theorem splitLast?_squeeze {sep : Char} (hsep : isBlank sep = false) (cs : List Char) :
    splitLast? sep (squeeze cs) = (splitLast? sep cs).map (Prod.map squeeze squeeze) := by
  rw [splitLast?, splitLast?, ← squeeze_reverse, splitOnce?_squeeze hsep, Option.map_map,
    Option.map_map]
  congr 1
  funext parts
  simp [squeeze_reverse]

end CodeIndex.Text
