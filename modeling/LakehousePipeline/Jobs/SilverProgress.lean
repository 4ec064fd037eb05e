import LakehousePipeline.Jobs.RunBatch

/-!
# What a Silver table remembers of its Batch runs

The progress of the Batch pipeline is in the metadata of its own commits. `delta_table_state` looks
at the latest commit and, where that is of someone else, at the last hundred. Maintenance is rare
enough for that; but CDC merges into the same tables, and a hundred of its commits hide the last
Batch commit. The table then looks as it did before its first Batch run, and `run_table` merges all
of Bronze again (`progressKept_iff`).
-/

namespace LakehousePipeline

/-- `DeltaTableState` of a Silver table. -/
structure SilverTableState where
  /-- `version`. -/
  version : ℕ
  /-- `progress_version`. -/
  progressVersion : Option ℕ
  /-- `last_processed_bronze_version` of `progress`. -/
  progress : Option ℕ
  deriving DecidableEq

/-- `delta_table_state` for the Batch pipeline, from the commits of a table and the metadata of the
Batch ones: the latest commit, or else the latest of its kind among the last ones. -/
def deltaTableState {P : Type} (processed : ℕ → ℕ) (commits : List (SilverCommit P)) :
    Option SilverTableState :=
  commits.getLast?.map fun latest ↦
    let version := commits.length - 1
    if latest.isBatch then ⟨version, some version, some (processed version)⟩
    else
      let found := (commits.zipIdx.reverse.take progressHistoryFallbackLimit).find?
        fun row ↦ row.1.isBatch
      ⟨version, found.map Prod.snd, found.map fun row ↦ processed row.2⟩

section State

variable {P : Type} (processed : ℕ → ℕ) {commits before after : List (SilverCommit P)}
  {c : SilverCommit P}

/-- Both ways are one search of the last commits. -/
theorem deltaTableState_eq (hne : commits ≠ []) : deltaTableState processed commits = some
    { version := commits.length - 1
      progressVersion :=
        TableLog.recentVersionWhere SilverCommit.isBatch progressHistoryFallbackLimit commits
      progress := (TableLog.recentVersionWhere SilverCommit.isBatch progressHistoryFallbackLimit
        commits).map processed } := by
  obtain ⟨init, latest, rfl⟩ := (List.eq_nil_or_concat commits).resolve_left hne
  rw [deltaTableState, List.concat_eq_append, List.getLast?_concat]
  rcases hlatest : latest.isBatch with - | -
  · rw [← TableLog.find?_take_reverse SilverCommit.isBatch, Option.map_map]
    simp only [Option.map_some, hlatest, Bool.false_eq_true, if_false]
    rfl
  · have hlength : (init ++ [latest]).length - 1 = init.length := by simp
    rw [progressHistoryFallbackLimit, TableLog.recentVersionWhere_concat_of_pos hlatest, hlength]
    simp only [Option.map_some, hlatest, if_true]

/-- With a Batch commit and others after it, the state has the progress of the Batch commit if these
are few enough, and none otherwise. -/
theorem deltaTableState_append (hc : c.isBatch = true) (hafter : ∀ d ∈ after, d.isBatch = false) :
    deltaTableState processed (before ++ c :: after) = some
      (if after.length < progressHistoryFallbackLimit then
        ⟨before.length + after.length, some before.length, some (processed before.length)⟩
      else ⟨before.length + after.length, none, none⟩) := by
  have hlength : (before ++ c :: after).length - 1 = before.length + after.length := by simp
  rw [deltaTableState_eq processed (by simp), TableLog.recentVersionWhere_append hc hafter, hlength]
  split <;> rfl

end State

/-! ### The branch of `run_table` -/

namespace BatchLake

variable {W : Type} [DecidableEq W] (world : BatchLake W) (fns : SparkFunctions)
  (hash : BusinessHash) (clean : Cleaning)

omit [DecidableEq W] in
/-- `run_table` goes by the state of the table. -/
theorem tableRun_eq (t : SilverTable) (current : ℕ) :
    world.tableRun t false current =
      match deltaTableState (world.processed t) (world.lakehouse.silver.tables t) with
      | none => some .replace
      | some state =>
        match state.progress with
        | none => some .mergeSnapshot
        | some previous =>
          if current < previous then none
          else if previous = current then some .keep
          else some (.mergeChanges (previous + 1)) := by
  rcases hcommits : world.lakehouse.silver.tables t with - | ⟨c, rest⟩
  · rw [tableRun, hcommits]
    rfl
  · rw [deltaTableState_eq _ (List.cons_ne_nil c rest), tableRun, hcommits]
    show (match TableLog.recentVersionWhere SilverCommit.isBatch progressHistoryFallbackLimit
      (c :: rest) with | none => some TableRun.mergeSnapshot | some version => _) = _
    rcases TableLog.recentVersionWhere SilverCommit.isBatch progressHistoryFallbackLimit
      (c :: rest) with - | version <;> rfl

variable {t : SilverTable} {before after : List (SilverCommit (SilverColumns t))}
  {c : SilverCommit (SilverColumns t)}

omit [DecidableEq W] in
/-- A Batch commit that is too far back is no Batch commit. -/
theorem tableRun_of_hidden
    (hcommits : world.lakehouse.silver.tables t = before ++ c :: after) (hc : c.isBatch = true)
    (hafter : ∀ d ∈ after, d.isBatch = false)
    (hfar : ¬after.length < progressHistoryFallbackLimit) (current : ℕ) :
    world.tableRun t false current = some .mergeSnapshot := by
  rw [tableRun_eq, hcommits, deltaTableState_append _ hc hafter, if_neg hfar]

/-- **When progress is forgotten.** With a Batch commit in a Silver table and none after it, the
state of the table has the progress and the version of that commit exactly when fewer than a hundred
commits came after it; and exactly otherwise `run_table` merges all of Bronze, as before a first
Batch run. -/
theorem progressKept_iff
    (hcommits : world.lakehouse.silver.tables t = before ++ c :: after) (hc : c.isBatch = true)
    (hafter : ∀ d ∈ after, d.isBatch = false) :
    (deltaTableState (world.processed t) (world.lakehouse.silver.tables t) = some
        ⟨before.length + after.length, some before.length, some (world.processed t before.length)⟩ ↔
      after.length < progressHistoryFallbackLimit) ∧
    ((∀ current, world.tableRun t false current ≠ some .mergeSnapshot) ↔
      after.length < progressHistoryFallbackLimit) ∧
    (¬after.length < progressHistoryFallbackLimit → ∀ writer killed,
      world.runTable fns hash clean writer t false killed =
        (world.bronzeVersion writer t).bind fun current ↦
          world.mergeRows fns hash clean writer t current 0 (world.bronze t).length killed) := by
  have hstate : deltaTableState (world.processed t) (world.lakehouse.silver.tables t) = _ :=
    hcommits ▸ deltaTableState_append (world.processed t) hc hafter
  rcases Decidable.em (after.length < progressHistoryFallbackLimit) with hlt | hfar
  · rw [if_pos hlt] at hstate
    refine ⟨iff_of_true hstate hlt, iff_of_true (fun current hrun ↦ ?_) hlt, absurd hlt⟩
    rw [tableRun_eq, hstate] at hrun
    obtain ⟨-, hrun⟩ := Option.ite_none_left_eq_some.1 hrun
    split at hrun <;> cases hrun
  · have hmerges := world.tableRun_of_hidden hcommits hc hafter hfar
    rw [if_neg hfar] at hstate
    refine ⟨iff_of_false (fun hkept ↦ ?_) hfar, iff_of_false (fun h ↦ h 0 (hmerges 0)) hfar,
      fun _ writer killed ↦ ?_⟩
    · rw [hstate] at hkept
      cases hkept
    · rw [runTable]
      refine Option.bind_congr fun current _ ↦ ?_
      rw [hmerges current]
      rfl

/-! ### A hundred micro-batches -/

/-- A commit of a pipeline. -/
def shopCommit (pipeline : SilverPipeline) : SilverCommit (SilverColumns .shops) where
  rows := []
  feed := []
  pipeline := some pipeline

/-- CDC micro-batches. -/
def microBatches (n : ℕ) : List (SilverCommit (SilverColumns .shops)) :=
  List.replicate n (shopCommit .cdcToSilver)

/-- The shops after a Batch run and a number of CDC micro-batches. -/
def afterMicroBatches (n : ℕ) : BatchLake ℕ :=
  { empty with
    lakehouse := { (empty : BatchLake ℕ).lakehouse with
      silver :=
        { tables := Function.update (fun _ ↦ []) .shops
            ([] ++ shopCommit .bronzeToSilver :: microBatches n)
          histories := fun _ ↦ [] } } }

theorem tables_afterMicroBatches (n : ℕ) : (afterMicroBatches n).lakehouse.silver.tables .shops =
    [] ++ shopCommit .bronzeToSilver :: microBatches n := by
  show (Function.update (fun _ ↦ []) .shops ([] ++ shopCommit .bronzeToSilver :: microBatches n) :
    (t : SilverTable) → List (SilverCommit (SilverColumns t))) .shops = _
  rw [Function.update_self]

theorem isBatch_of_mem_microBatches {n : ℕ} : ∀ d ∈ microBatches n, d.isBatch = false := by
  intro d hd
  rw [List.eq_of_mem_replicate hd]
  rfl

theorem length_microBatches (n : ℕ) : (microBatches n).length = n :=
  List.length_replicate

/-- After ninety-nine micro-batches the progress is still found. -/
theorem progressKept_iff_microBatches :
    (microBatches 99).length = 99 ∧
      ∀ current, (afterMicroBatches 99).tableRun .shops false current ≠ some .mergeSnapshot :=
  ⟨length_microBatches 99,
    ((progressKept_iff (afterMicroBatches 99) .plain smallHash (fun _ ↦ id)
      (tables_afterMicroBatches 99) rfl isBatch_of_mem_microBatches).2.1).2
        ((length_microBatches 99).trans_lt (by decide))⟩

/-- **After a hundred it is not**, and the next Batch run merges all of Bronze again. -/
theorem progress_forgotten :
    ¬∀ (world : BatchLake ℕ) (t : SilverTable)
      (before after : List (SilverCommit (SilverColumns t))) (c : SilverCommit (SilverColumns t)),
      world.lakehouse.silver.tables t = before ++ c :: after → c.isBatch = true →
      (∀ d ∈ after, d.isBatch = false) →
      deltaTableState (world.processed t) (world.lakehouse.silver.tables t) = some
          ⟨before.length + after.length, some before.length,
            some (world.processed t before.length)⟩ ∧
        ∀ current, world.tableRun t false current ≠ some .mergeSnapshot := by
  intro h
  obtain ⟨-, hkept⟩ := h (afterMicroBatches 100) .shops [] _ _ (tables_afterMicroBatches 100) rfl
    isBatch_of_mem_microBatches
  refine hkept 0 (tableRun_of_hidden _ (tables_afterMicroBatches 100) rfl
    isBatch_of_mem_microBatches ?_ 0)
  rw [length_microBatches]
  decide

end BatchLake

end LakehousePipeline
