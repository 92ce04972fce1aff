import Mathlib.Data.List.Basic
import Mathlib.Logic.Relation
import CodeIndex.Build

/-!
# Building in batches

Source files are read in batches, and the batches run side by side.  What is found does not depend
on how they run: neither on the order in which batches finish, nor on the order in which the files
of all batches are read.  In both cases the declarations come out in the order of the files, so
the index is that of a build that reads one file after the other.

* `flatten_batches` : the batches put together are the list.
* `Filled.finish`, `Filled.run` : the slots after one batch, and after a schedule.
* `Advances.whole`, `Runs.whole` : what the tasks will have found is kept by one step, and by a run.
* `assemble_inBatches` : the index is that of the files one after the other.
-/

namespace CodeIndex.Build

/-! ## Batches -/

/-- Batches put together are the items they were cut from. -/
theorem flatten_batchesFrom {α : Type} {size : Nat} (hsize : 0 < size) {fuel : Nat}
    {items : List α} (hfuel : items.length ≤ fuel) :
    (batchesFrom size fuel items).flatten = items := by
  induction fuel generalizing items with
  | zero =>
      rw [List.length_eq_zero_iff.mp (Nat.le_zero.mp hfuel)]
      rfl
  | succ fuel ih =>
      cases items with
      | nil => rfl
      | cons item items =>
          have hrest : ((item :: items).drop size).length ≤ fuel := by
            rw [List.length_drop]
            omega
          rw [batchesFrom, List.flatten_cons, ih hrest, List.take_append_drop]
          simp

/-- The batches put together are the list. -/
theorem flatten_batches {α : Type} (size : Nat) (items : List α) :
    (batches size items).flatten = items :=
  flatten_batchesFrom (by omega) (Nat.le_refl _)

/-! ## Batches that finish in some order -/

section

variable {α β : Type} {work : α → β} {items : List α}

/-- The slots hold the results of the batches that are done. -/
def Filled (work : α → β) (items : List α) (done : List Nat) (slots : List (Option β)) : Prop :=
  ∀ i : Nat, slots[i]? = items[i]?.map fun item => if i ∈ done then some (work item) else none

/-- At first nothing is done. -/
theorem Filled.start (work : α → β) (items : List α) :
    Filled work items [] (items.map fun _ => none) := by
  intro i
  simp only [List.getElem?_map, List.not_mem_nil, if_false]

/-- One more batch is done. -/
theorem Filled.finish {done : List Nat} {slots : List (Option β)}
    (h : Filled work items done slots) (i : Nat) :
    Filled work items (i :: done) (finish work items slots i) := by
  intro j
  unfold Build.finish
  cases hitem : items[i]? with
  | none =>
      rw [h j]
      by_cases hj : j = i
      · rw [hj, hitem]
        rfl
      · simp [hj]
  | some item =>
      by_cases hj : j = i
      · have hslot : slots[i]? ≠ none := by
          rw [h i, hitem]
          simp
        have hlength : i < slots.length := by
          by_contra hout
          exact hslot (List.getElem?_eq_none (Nat.not_lt.mp hout))
        simp only [hj, hitem, List.getElem?_set_self hlength]
        simp
      · simp only [List.getElem?_set_ne (Ne.symm hj), h j]
        simp [hj]

/-- What a schedule leaves in the slots. -/
theorem Filled.run {done : List Nat} {slots : List (Option β)} (h : Filled work items done slots)
    (schedule : List Nat) :
    Filled work items (schedule.reverse ++ done)
      (schedule.foldl (Build.finish work items) slots) := by
  induction schedule generalizing done slots with
  | nil => exact h
  | cons i schedule ih =>
      rw [List.reverse_cons, List.append_assoc, List.foldl_cons]
      exact ih (h.finish i)

/-- A schedule in which every batch is done at some time gives the results in order. -/
theorem runSchedule_eq_map {schedule : List Nat} (hall : ∀ i < items.length, i ∈ schedule) :
    runSchedule work items schedule = items.map work := by
  have hslots : schedule.foldl (finish work items) (items.map fun _ => none)
      = (items.map work).map some := by
    apply List.ext_getElem?
    intro i
    rw [(Filled.start work items).run schedule i]
    by_cases hi : i < items.length
    · simp [List.getElem?_eq_getElem hi, hall i hi]
    · simp [List.getElem?_eq_none (Nat.not_lt.mp hi)]
  rw [runSchedule, hslots, List.filterMap_map]
  exact List.filterMap_some

end

/-- Parts that are indexed one behind the other give what the whole gives. -/
theorem sequential_flatten (config : Config) (disk : Disk) (parts : List (List String)) :
    sequential config disk parts.flatten = parts.flatMap (sequential config disk) := by
  rw [sequential, ← List.flatMap_id, List.flatMap_assoc]
  rfl

/-- However the batches finish, the declarations come in the order of the files. -/
theorem inBatches_eq_sequential (config : Config) (disk : Disk) {files : List String}
    {schedule : List Nat}
    (hall : ∀ i < (batches config.indexing.batchSize files).length, i ∈ schedule) :
    inBatches config disk schedule files = sequential config disk files := by
  calc inBatches config disk schedule files
      = (batches config.indexing.batchSize files).flatMap (sequential config disk) := by
        rw [inBatches, runSchedule_eq_map hall, List.flatMap_def]
    _ = sequential config disk files := by
        rw [← sequential_flatten, flatten_batches]

/-! ## Batches that run side by side -/

/-- A task that works through a batch: the files left, and what it has found so far. -/
structure Task where
  left : List String
  found : List Declaration := []

/-- Some task reads its next file. -/
inductive Advances (config : Config) (disk : Disk) : List Task → List Task → Prop
  | read (before : List Task) (file : String) (left : List String) (found : List Declaration)
      (after : List Task) :
      Advances config disk (before ++ ⟨file :: left, found⟩ :: after)
        (before ++ ⟨left, found ++ declarationsOf config disk file⟩ :: after)

/-- The tasks read files one by one, in any order among them. -/
abbrev Runs (config : Config) (disk : Disk) : List Task → List Task → Prop :=
  Relation.ReflTransGen (Advances config disk)

/-- What tasks will have found, in their order, once no file is left. -/
def whole (config : Config) (disk : Disk) (tasks : List Task) : List Declaration :=
  tasks.flatMap fun task => task.found ++ sequential config disk task.left

section

variable {config : Config} {disk : Disk} {tasks tasks' : List Task}

/-- Before the first step the tasks stand for the sequential pass over all files. -/
theorem whole_start (config : Config) (disk : Disk) (parts : List (List String)) :
    whole config disk (parts.map fun left => { left }) = sequential config disk parts.flatten := by
  rw [whole, List.flatMap_map, sequential_flatten]
  rfl

/-- Finished tasks stand for what they found. -/
theorem whole_of_done (hdone : ∀ task ∈ tasks, task.left = []) :
    whole config disk tasks = tasks.flatMap Task.found := by
  apply List.flatMap_congr
  intro task htask
  rw [hdone task htask]
  exact List.append_nil _

/-- Reading a file moves its declarations from what is left to what is found. -/
theorem Advances.whole (h : Advances config disk tasks tasks') :
    whole config disk tasks' = whole config disk tasks := by
  cases h with
  | read before file left found after =>
      simp [Build.whole, sequential]

/-- No schedule changes what the tasks stand for. -/
theorem Runs.whole (h : Runs config disk tasks tasks') :
    Build.whole config disk tasks' = Build.whole config disk tasks := by
  induction h with
  | refl => rfl
  | tail _ hstep ih => exact hstep.whole.trans ih

end

/-- **Batches change nothing.**  Every schedule that finishes all batches, and every run of their
tasks that leaves no file, gives the index of the files read one after the other, but for the time
of the build. -/
theorem assemble_inBatches (config : Config) (disk : Disk) (files : List String)
    (now now' : Timestamp) (commit branch : Option String) :
    (∀ schedule : List Nat,
      (∀ i < (batches config.indexing.batchSize files).length, i ∈ schedule) →
      { Index.assemble now commit branch (inBatches config disk schedule files) with
        builtAt := now' }
        = Index.assemble now' commit branch (sequential config disk files)) ∧
    (∀ tasks : List Task,
      Runs config disk ((batches config.indexing.batchSize files).map fun left => { left }) tasks →
      (∀ task ∈ tasks, task.left = []) →
      { Index.assemble now commit branch (tasks.flatMap Task.found) with builtAt := now' }
        = Index.assemble now' commit branch (sequential config disk files)) := by
  constructor
  · intro schedule hall
    rw [inBatches_eq_sequential config disk hall]
    rfl
  · intro tasks hruns hdone
    have hfound : tasks.flatMap Task.found = sequential config disk files := by
      rw [← whole_of_done hdone, hruns.whole, whole_start, flatten_batches]
    rw [hfound]
    rfl

/-- Batches of no size, which hold one file each. -/
def noBatchSize : Config where
  indexing := { batchSize := 0 }

/-- Two source files. -/
def twoFiles : Disk where
  entries :=
    [(["a.php"], .file "<?php class A {}".toUTF8), (["b.php"], .file "<?php class B {}".toUTF8)]

/-- Two files in batches of one, the second of them first. -/
theorem assemble_inBatches_two :
    (∀ i < (batches noBatchSize.indexing.batchSize ["a.php", "b.php"]).length, i ∈ [1, 0]) ∧
      { Index.assemble ⟨⟨2024, 1, 2⟩, 3, 4, 0⟩ none none
          (inBatches noBatchSize twoFiles [1, 0] ["a.php", "b.php"]) with
        builtAt := ⟨⟨2025, 1, 2⟩, 3, 4, 0⟩ }
        = Index.assemble ⟨⟨2025, 1, 2⟩, 3, 4, 0⟩ none none
            (sequential noBatchSize twoFiles ["a.php", "b.php"]) ∧
      ∃ tasks, Runs noBatchSize twoFiles [⟨["a.php"], []⟩, ⟨["b.php"], []⟩] tasks ∧
        (∀ task ∈ tasks, task.left = []) ∧
        { Index.assemble ⟨⟨2024, 1, 2⟩, 3, 4, 0⟩ none none (tasks.flatMap Task.found) with
          builtAt := ⟨⟨2025, 1, 2⟩, 3, 4, 0⟩ }
          = Index.assemble ⟨⟨2025, 1, 2⟩, 3, 4, 0⟩ none none
              (sequential noBatchSize twoFiles ["a.php", "b.php"]) := by
  have hall : ∀ i < (batches noBatchSize.indexing.batchSize ["a.php", "b.php"]).length,
      i ∈ [1, 0] := by decide
  obtain ⟨hschedule, htasks⟩ := assemble_inBatches noBatchSize twoFiles ["a.php", "b.php"]
    ⟨⟨2024, 1, 2⟩, 3, 4, 0⟩ ⟨⟨2025, 1, 2⟩, 3, 4, 0⟩ none none
  have hruns : Runs noBatchSize twoFiles [⟨["a.php"], []⟩, ⟨["b.php"], []⟩] _ :=
    .tail (.single (.read [⟨["a.php"], []⟩] "b.php" [] [] [])) (.read [] "a.php" [] [] _)
  refine ⟨hall, hschedule [1, 0] hall, _, hruns, ?_, htasks _ hruns ?_⟩
  · simp
  · simp

end CodeIndex.Build
