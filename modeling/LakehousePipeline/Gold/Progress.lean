import LakehousePipeline.Gold.Releases
import LakehousePipeline.Library.Runs

/-!
# Progress of Gold over Silver

Batch runs hold the lock for their Silver stage and again for their Gold stage, and CDC writers and
maintenance come in between. So the manifest a Gold stage is handed may be behind Silver, and behind
the active release in some tables. A stage records the manifest only if it is nowhere behind the
release, and otherwise what it reads from Silver itself; either way it is nowhere behind the release
and nowhere ahead of Silver.

A lakehouse has the Silver tables, the Gold layer and the manifests of the batch runs, and its
actions are single commits, so any interleaving of writers, any crash included, is a list of
actions. `reads` is the trace of what the change data feed was asked for and returned, in the runs
that published. Along any run the traced ranges of a table tile its versions between the two
releases (`goldProgress_tiles`).

## What a run records

`currentSilverVersions` is what a run starts from, the manifest or the live versions;
`refreshedVersions` is what it records, which is the same unless the release is ahead of the
manifest somewhere. The lemmas on them (`currentSilverVersions_le`, `refreshedVersions_le`,
`le_refreshedVersions`) hold of one run in any state that is behind Silver, and everything later in
this module is an induction over runs that uses no more than that.

## The two halves of the result

* `BehindSilver` is the invariant of all actions: no manifest and no release is ahead of Silver. It
  is kept because Silver only grows (`SilverLake.Extends`), a manifest is written with the version
  its own commit gets, and a Gold stage records nothing that is ahead of the tables it reads.
* `reads_tile` adds what was asked of the feed between two releases. A full rebuild is excluded
  there: it reads no feed and may record an older manifest.

The feed of a range does not change once its versions are there (`readChanges_of_extends`), so the
rows that two runs have read are the rows one run would have read over both their ranges.
-/

namespace LakehousePipeline

/-! ### Change ranges -/

namespace SilverLake

variable {lake lake' : SilverLake} {t : SilverTable}

/-- A later state of Silver: the logs have grown. -/
def Extends (lake lake' : SilverLake) : Prop :=
  ∀ t, lake.tables t <+: lake'.tables t

/-- Silver extends itself. -/
theorem Extends.refl (lake : SilverLake) : lake.Extends lake :=
  fun _ ↦ List.prefix_refl _

theorem Extends.trans {lake'' : SilverLake} (h : lake.Extends lake') (h' : lake'.Extends lake'') :
    lake.Extends lake'' :=
  fun t ↦ (h t).trans (h' t)

/-- One more commit of a table. -/
def commit (lake : SilverLake) (t : SilverTable) (c : SilverCommit (SilverColumns t)) :
    SilverLake :=
  { lake with tables := Function.update lake.tables t (lake.tables t ++ [c]) }

/-- A commit adds a version of its table. -/
theorem extends_commit (lake : SilverLake) (t : SilverTable) (c : SilverCommit (SilverColumns t)) :
    lake.Extends (lake.commit t c) := by
  intro t'
  show lake.tables t' <+: Function.update lake.tables t (lake.tables t ++ [c]) t'
  rcases eq_or_ne t' t with rfl | hne
  · rw [Function.update_self]
    exact List.prefix_append _ _
  · rw [Function.update_of_ne hne]

/-- **The version of a table does not go back.** -/
theorem version_mono (h : lake.Extends lake') (t : SilverTable) :
    lake.version t ≤ lake'.version t :=
  TableLog.lastVersionWhere_mono (h t)

/-- A data commit has the version of its table. -/
theorem version_commit_self (lake : SilverLake) (t : SilverTable)
    (c : SilverCommit (SilverColumns t)) (hc : c.pipeline.isSome = true) :
    (lake.commit t c).version t = (lake.tables t).length := by
  show TableLog.lastVersionWhere _ (Function.update lake.tables t (lake.tables t ++ [c]) t) = _
  rw [Function.update_self]
  exact TableLog.lastVersionWhere_concat_of_pos
    (p := fun commit : SilverCommit (SilverColumns t) ↦ commit.pipeline.isSome) hc _

/-- Adjacent ranges of the feed. -/
theorem readChanges_append (lake : SilverLake) (t : SilverTable) {start middle stop : ℕ}
    (hstart : start ≤ middle + 1) (hstop : middle ≤ stop) :
    lake.readChanges t start middle ++ lake.readChanges t (middle + 1) stop =
      lake.readChanges t start stop := by
  have htake : ((lake.tables t).take (stop + 1)).take (middle + 1) =
      (lake.tables t).take (middle + 1) := by
    rw [List.take_take, min_eq_left (by omega)]
  have hdrop : (((lake.tables t).take (stop + 1)).drop start).drop (middle + 1 - start) =
      ((lake.tables t).take (stop + 1)).drop (middle + 1) := by
    rw [List.drop_drop]
    congr 1
    omega
  have hhead : (((lake.tables t).take (stop + 1)).drop start).take (middle + 1 - start) =
      ((lake.tables t).take (middle + 1)).drop start := by
    rw [List.take_drop, Nat.add_sub_cancel' hstart, htake]
  show (((lake.tables t).take (middle + 1)).drop start).flatMap _ ++
    (((lake.tables t).take (stop + 1)).drop (middle + 1)).flatMap _ =
      (((lake.tables t).take (stop + 1)).drop start).flatMap _
  rw [← List.flatMap_append, ← hhead, ← hdrop, List.take_append_drop]

/-- An empty range of the feed. -/
theorem readChanges_self (lake : SilverLake) (t : SilverTable) (version : ℕ) :
    lake.readChanges t (version + 1) version = [] := by
  rw [readChanges, List.drop_take_self]
  rfl

/-- **A range of the feed stays what it was.** -/
theorem readChanges_of_extends (h : lake.Extends lake') {stop : ℕ}
    (hstop : stop < (lake.tables t).length) (start : ℕ) :
    lake'.readChanges t start stop = lake.readChanges t start stop := by
  obtain ⟨more, hmore⟩ := h t
  rw [readChanges, readChanges, ← hmore, List.take_append_of_le_length (by omega)]

end SilverLake

/-! ### What one run records -/

section Run

variable (hash : BusinessHash) (run : GoldRun) (previous : SilverTable → ℕ)

/-- The range of versions a run asks the feed of a table for. -/
def changeRange (t : SilverTable) : Option (ℕ × ℕ) :=
  if previous t < refreshedVersions run previous t then
    some (previous t + 1, refreshedVersions run previous t)
  else none

/-- The changes of a run are what the feed returns for its ranges. -/
theorem changesSince_eq : changesSince hash run previous =
    substantiveChanges hash fun t ↦
      (changeRange run previous t).map fun range ↦ run.lake.readChanges t range.1 range.2 := by
  rw [changesSince]
  congr 1
  funext t
  rw [changeRange]
  split <;> rfl

variable {run previous}

/-- What a run starts from is not ahead of Silver. -/
theorem currentSilverVersions_le
    (hmanifest : ∀ manifest, run.silverManifest = some manifest →
      ∀ t, manifest t ≤ run.lake.version t)
    (t : SilverTable) : currentSilverVersions run t ≤ run.lake.version t := by
  rw [currentSilverVersions]
  rcases hm : run.silverManifest with - | manifest
  · exact le_rfl
  · exact hmanifest manifest hm t

variable (run previous) in
/-- What is recorded is the manifest, or what Silver has. -/
theorem refreshedVersions_eq_or :
    (∃ manifest, run.silverManifest = some manifest ∧ refreshedVersions run previous = manifest) ∨
      refreshedVersions run previous = run.lake.version := by
  rw [refreshedVersions, currentSilverVersions]
  rcases run.silverManifest with - | manifest
  · exact Or.inr (by simp)
  · split
    · exact Or.inr rfl
    · exact Or.inl ⟨manifest, rfl, rfl⟩

/-- Nothing is recorded that is ahead of Silver. -/
theorem refreshedVersions_le
    (hmanifest : ∀ manifest, run.silverManifest = some manifest →
      ∀ t, manifest t ≤ run.lake.version t)
    (t : SilverTable) : refreshedVersions run previous t ≤ run.lake.version t := by
  rcases refreshedVersions_eq_or run previous with ⟨m, hm, heq⟩ | heq
  · rw [heq]
    exact hmanifest m hm t
  · rw [heq]

/-- Nothing is recorded that is behind the manifest. -/
theorem le_refreshedVersions
    (hmanifest : ∀ manifest, run.silverManifest = some manifest →
      ∀ t, manifest t ≤ run.lake.version t)
    {manifest : SilverTable → ℕ} (hm : run.silverManifest = some manifest) (t : SilverTable) :
    manifest t ≤ refreshedVersions run previous t := by
  rcases refreshedVersions_eq_or run previous with ⟨m, hm', heq⟩ | heq
  · rw [heq, Option.some.inj (hm.symm.trans hm')]
  · rw [heq]
    exact hmanifest manifest hm t

end Run

section Publication

variable {fns : SparkFunctions} {hash : BusinessHash} {run : GoldRun} {s : GoldState}

/-- A run that publishes nothing leaves the active release. -/
theorem activeRelease_of_not_publishes (h : (runGold fns hash run s).2.publishes = false) :
    (runGold fns hash run s).1.activeRelease = s.activeRelease := by
  have hstep := runStep_runGold fns hash run s
  generalize (runGold fns hash run s).1 = s' at hstep ⊢
  generalize (runGold fns hash run s).2 = outcome at hstep h
  cases hstep with
  | unpublished hextends hreleases =>
    rw [GoldState.activeRelease, hreleases]
    rfl
  | full | metadataOnly | incremental => cases h

/-- **What a release records**: a full run what it was handed or found, an incremental run the
refreshed versions. -/
theorem activeRelease_of_publishes (h : (runGold fns hash run s).2.publishes = true) :
    ∃ release, (runGold fns hash run s).1.activeRelease = some release ∧
      ((run.fullRebuild = true ∨ s.activeRelease = none) ∧
          release.silverVersions = currentSilverVersions run ∨
        ∃ previous, s.activeRelease = some previous ∧ run.fullRebuild = false ∧
          release.silverVersions = refreshedVersions run previous.silverVersions) := by
  have hstep := runStep_runGold fns hash run s
  generalize (runGold fns hash run s).1 = s' at hstep ⊢
  generalize (runGold fns hash run s).2 = outcome at hstep h
  cases hstep with
  | unpublished _ _ houtcome =>
    cases outcome with
    | published changed built => exact absurd rfl (houtcome changed built)
    | upToDate | rejected | failed => cases h
  | full hor => exact ⟨_, GoldState.activeRelease_publish _ _ _ _, Or.inl ⟨hor, rfl⟩⟩
  | metadataOnly hactive hfull =>
    exact ⟨_, GoldState.activeRelease_publish _ _ _ _, Or.inr ⟨_, hactive, hfull, rfl⟩⟩
  | incremental hactive hfull =>
    exact ⟨_, GoldState.activeRelease_publish _ _ _ _, Or.inr ⟨_, hactive, hfull, rfl⟩⟩

/-- **A later release that is no full rebuild** records the refreshed versions, which are nowhere
behind those of the release before. -/
theorem activeRelease_of_incremental {previous : GoldRelease}
    (hactive : s.activeRelease = some previous) (hfull : run.fullRebuild = false)
    (h : (runGold fns hash run s).2.publishes = true) :
    ∃ release, (runGold fns hash run s).1.activeRelease = some release ∧
      release.silverVersions = refreshedVersions run previous.silverVersions ∧
      ∀ t, previous.silverVersions t ≤ refreshedVersions run previous.silverVersions t := by
  have hprogress : ∀ t,
      previous.silverVersions t ≤ refreshedVersions run previous.silverVersions t := by
    rw [runGold, hactive] at h
    simp only [hfull, Bool.false_eq_true, if_false] at h
    split at h
    · cases h
    · rename_i hahead
      intro t
      refine not_lt.1 fun hlt ↦ hahead (List.any_eq_true.2 ⟨t, mem_silverTables t, ?_⟩)
      exact decide_eq_true hlt
  obtain ⟨release, hrelease, ⟨hor, -⟩ | ⟨previous', hactive', -, hversions⟩⟩ :=
    activeRelease_of_publishes h
  · rcases hor with htrue | hnone
    · cases hfull.symm.trans htrue
    · cases hnone.symm.trans hactive
  · obtain rfl := Option.some.inj (hactive.symm.trans hactive')
    exact ⟨release, hrelease, hversions, hprogress⟩

/-- A run that rebuilds does not find Gold up to date. -/
theorem runFull_ne_upToDate : (runFull fns run s).2 ≠ .upToDate := by
  rw [runFull]
  dsimp only
  repeat' split
  all_goals rintro ⟨⟩

/-- Nor does a run that has looked for changes. -/
theorem runIncremental_ne_upToDate {previous : GoldRelease} {changes : SilverChanges} :
    (runIncremental fns run s previous changes).2 ≠ .upToDate := by
  rw [runIncremental]
  dsimp only
  repeat' split
  all_goals rintro ⟨⟩

/-- **A run that finds Gold up to date** leaves it, under a release that has all versions the run
would record. -/
theorem runGold_of_upToDate (h : (runGold fns hash run s).2 = .upToDate) :
    (runGold fns hash run s).1 = s ∧ ∃ previous, s.activeRelease = some previous ∧
      ∀ t, refreshedVersions run previous.silverVersions t ≤ previous.silverVersions t := by
  rw [runGold] at h ⊢
  rcases hactive : s.activeRelease with - | previous
  · rw [hactive] at h
    exact absurd h runFull_ne_upToDate
  rw [hactive] at h
  dsimp only at h ⊢
  split at h
  · exact absurd h runFull_ne_upToDate
  rename_i hfull
  rw [if_neg hfull]
  split at h
  · cases h
  rename_i hahead
  rw [if_neg hahead]
  split at h
  · rename_i hle
    rw [if_pos hle]
    exact ⟨rfl, previous, rfl, fun t ↦
      of_decide_eq_true (List.all_eq_true.1 hle t (mem_silverTables t))⟩
  · split at h
    · split at h
      all_goals cases h
    · exact absurd h runIncremental_ne_upToDate

/-- So the release it leaves active has them. -/
theorem activeRelease_of_upToDate (h : (runGold fns hash run s).2 = .upToDate) :
    ∃ previous, (runGold fns hash run s).1.activeRelease = some previous ∧
      ∀ t, refreshedVersions run previous.silverVersions t ≤ previous.silverVersions t := by
  obtain ⟨heq, hprevious⟩ := runGold_of_upToDate h
  rwa [heq]

end Publication

/-! ### The lakehouse and its writers -/

/-- Silver, Gold and what the Silver stages have reported. `W` names the batch runs. -/
structure Lakehouse (W : Type) where
  /-- The Silver tables. -/
  silver : SilverLake
  /-- The Gold layer. -/
  gold : GoldState
  /-- The `committed_version` of each table in the manifest of each batch run. -/
  manifests : W → SilverTable → Option ℕ

/-- A Gold stage: the batch run whose manifest it is handed, if any, and what becomes of it. -/
structure GoldStage (W : Type) where
  /-- The batch run. -/
  writer : Option W
  /-- `full_rebuild`. -/
  fullRebuild : Bool
  /-- Where the stage is killed, if it is. -/
  interruption : Option Interruption
  /-- The dimension jobs that have ended when the dimension step breaks off. -/
  finished : GoldTable → Bool
  /-- Whether the customer job had written its checkpoint too. -/
  checkpointed : Bool

/-- What happens to a lakehouse. -/
inductive LakehouseAction (W : Type)
  /-- A commit of a Silver table that no manifest reports: a CDC merge, maintenance, a batch run
  that is killed afterwards. -/
  | commit (t : SilverTable) (c : SilverCommit (SilverColumns t))
  /-- An append to a change history. -/
  | appendHistory (t : SilverTable) (rows : List (HistoryRow ℤ (SilverColumns t)))
  /-- `run_table` of a batch run that finds new Bronze events. -/
  | mergeTable (writer : W) (t : SilverTable) (c : SilverCommit (SilverColumns t))
  /-- `_replace_from_snapshot` of a batch run: table and change history are written anew. -/
  | replaceTable (writer : W) (t : SilverTable) (c : SilverCommit (SilverColumns t))
    (rows : List (HistoryRow ℤ (SilverColumns t)))
  /-- `run_table` of a batch run that finds none. -/
  | keepTable (writer : W) (t : SilverTable)
  /-- A Gold stage. -/
  | goldStage (stage : GoldStage W)

/-- A forced full rebuild of Gold. -/
def LakehouseAction.isFullRebuild {W : Type} : LakehouseAction W → Bool
  | .goldStage stage => stage.fullRebuild
  | _ => false

namespace Lakehouse

variable {W : Type} [DecidableEq W]

/-- No table has been written. -/
def empty : Lakehouse W where
  silver := { tables := fun _ ↦ [], histories := fun _ ↦ [] }
  gold := .empty
  manifests _ _ := none

variable (world : Lakehouse W)

/-- `SilverBatchManifest.committed_versions`, once all tables have a result. -/
def committedVersions (writer : W) : Option (SilverTable → ℕ) :=
  if silverTables.all fun t ↦ (world.manifests writer t).isSome then
    some fun t ↦ (world.manifests writer t).getD 0
  else none

/-- The run of a Gold stage; there is none before the manifest it is handed is complete. -/
def goldRun (stage : GoldStage W) : Option GoldRun :=
  let run := fun manifest : Option (SilverTable → ℕ) ↦
    { lake := world.silver
      fullRebuild := stage.fullRebuild
      silverManifest := manifest
      interruption := stage.interruption
      finished := stage.finished
      checkpointed := stage.checkpointed : GoldRun }
  match stage.writer with
  | none => some (run none)
  | some writer => (world.committedVersions writer).map fun versions ↦ run (some versions)

/-- A change history gets a new log. -/
def writeHistory (t : SilverTable) (log : List (List (HistoryRow ℤ (SilverColumns t)))) :
    Lakehouse W :=
  { world with silver := { world.silver with
    histories := Function.update world.silver.histories t log } }

/-- A batch run reports the version of a table. -/
def report (writer : W) (t : SilverTable) (version : ℕ) : Lakehouse W :=
  { world with
    manifests := Function.update world.manifests writer
      (Function.update (world.manifests writer) t (some version)) }

/-- One action. A batch run that merges reports the version after the latest one, which its commit
gets; one that has nothing to merge reports the last version a batch run has committed. -/
def step (fns : SparkFunctions) (hash : BusinessHash) : LakehouseAction W → Option (Lakehouse W)
  | .commit t c => some { world with silver := world.silver.commit t c }
  | .appendHistory t rows => some (world.writeHistory t (world.silver.histories t ++ [rows]))
  | .mergeTable writer t c =>
    if c.pipeline = some .bronzeToSilver then
      some ({ world with silver := world.silver.commit t c }.report writer t
        (world.silver.tables t).length)
    else none
  -- the rows of the earlier commits of the history are gone, its versions are not
  | .replaceTable writer t c rows =>
    if c.pipeline = some .bronzeToSilver then
      some (({ world with silver := world.silver.commit t c }.writeHistory t
        ((world.silver.histories t).map (fun _ ↦ []) ++ [rows])).report writer t
          (world.silver.tables t).length)
    else none
  | .keepTable writer t =>
    some (world.report writer t (TableLog.lastVersionWhere
      (fun c : SilverCommit (SilverColumns t) ↦ c.pipeline = some .bronzeToSilver)
      (world.silver.tables t)))
  | .goldStage stage =>
    (world.goldRun stage).map fun run ↦ { world with gold := (runGold fns hash run world.gold).1 }

end Lakehouse

/-! ### Nothing is ahead of Silver -/

namespace Lakehouse

variable {W : Type} [DecidableEq W] {fns : SparkFunctions} {hash : BusinessHash}
  {world world' : Lakehouse W}

/-- **No manifest and no release is ahead of Silver.** -/
structure BehindSilver (world : Lakehouse W) : Prop where
  manifests : ∀ writer t v, world.manifests writer t = some v → v ≤ world.silver.version t
  release : ∀ release, world.gold.activeRelease = some release →
    ∀ t, release.silverVersions t ≤ world.silver.version t

omit [DecidableEq W] in
/-- Nothing is recorded of an empty lakehouse. -/
theorem behindSilver_empty : (empty : Lakehouse W).BehindSilver :=
  ⟨fun _ _ _ h ↦ (Option.some_ne_none _ h.symm).elim,
    fun _ h ↦ (Option.some_ne_none _ h.symm).elim⟩

/-- A report adds one version to one manifest. -/
theorem manifests_report (world : Lakehouse W) (writer : W) (t : SilverTable) (version : ℕ)
    {writer' : W} {t' : SilverTable} {v : ℕ}
    (h : (world.report writer t version).manifests writer' t' = some v) :
    (writer' = writer ∧ t' = t ∧ v = version) ∨ world.manifests writer' t' = some v := by
  have h : Function.update world.manifests writer
    (Function.update (world.manifests writer) t (some version)) writer' t' = some v := h
  rcases eq_or_ne writer' writer with rfl | hwriter
  · rw [Function.update_self] at h
    rcases eq_or_ne t' t with rfl | ht
    · rw [Function.update_self] at h
      exact Or.inl ⟨rfl, rfl, (Option.some.inj h).symm⟩
    · rw [Function.update_of_ne ht] at h
      exact Or.inr h
  · rw [Function.update_of_ne hwriter] at h
    exact Or.inr h

omit [DecidableEq W] in
/-- A complete manifest has the reported versions. -/
theorem le_of_committedVersions (h : world.BehindSilver) {writer : W} {versions : SilverTable → ℕ}
    (hversions : world.committedVersions writer = some versions) (t : SilverTable) :
    versions t ≤ world.silver.version t := by
  rw [committedVersions] at hversions
  split at hversions
  case isFalse => cases hversions
  case isTrue hall =>
    obtain ⟨v, hv⟩ := Option.isSome_iff_exists.1 (List.all_eq_true.1 hall t (mem_silverTables t))
    rw [← Option.some.inj hversions]
    show (world.manifests writer t).getD 0 ≤ world.silver.version t
    rw [hv]
    exact h.manifests writer t v hv

omit [DecidableEq W] in
/-- The run of a Gold stage. -/
theorem goldRun_spec (h : world.BehindSilver) {stage : GoldStage W} {run : GoldRun}
    (hrun : world.goldRun stage = some run) :
    run.lake = world.silver ∧ run.fullRebuild = stage.fullRebuild ∧
      ∀ manifest, run.silverManifest = some manifest →
        ∀ t, manifest t ≤ run.lake.version t := by
  rw [goldRun] at hrun
  split at hrun
  · obtain rfl := Option.some.inj hrun
    exact ⟨rfl, rfl, fun _ hm ↦ by cases hm⟩
  · obtain ⟨versions, hversions, rfl⟩ := Option.map_eq_some_iff.1 hrun
    refine ⟨rfl, rfl, fun manifest hm t ↦ ?_⟩
    obtain rfl := Option.some.inj hm
    exact le_of_committedVersions h hversions t

/-- A Silver action leaves Gold alone and only extends Silver. -/
theorem step_spec {action : LakehouseAction W} (hstep : world.step fns hash action = some world') :
    world.silver.Extends world'.silver ∧
      ((∀ stage, action ≠ .goldStage stage) → world'.gold = world.gold) := by
  cases action with
  | commit t c =>
    obtain rfl := Option.some.inj hstep
    exact ⟨SilverLake.extends_commit _ _ _, fun _ ↦ rfl⟩
  | appendHistory t rows =>
    obtain rfl := Option.some.inj hstep
    exact ⟨.refl _, fun _ ↦ rfl⟩
  | mergeTable writer t c =>
    obtain ⟨-, hstep⟩ := Option.ite_none_right_eq_some.1 hstep
    obtain rfl := Option.some.inj hstep
    exact ⟨SilverLake.extends_commit _ _ _, fun _ ↦ rfl⟩
  | replaceTable writer t c rows =>
    obtain ⟨-, hstep⟩ := Option.ite_none_right_eq_some.1 hstep
    obtain rfl := Option.some.inj hstep
    exact ⟨SilverLake.extends_commit _ _ _, fun _ ↦ rfl⟩
  | keepTable writer t =>
    obtain rfl := Option.some.inj hstep
    exact ⟨.refl _, fun _ ↦ rfl⟩
  | goldStage stage =>
    obtain ⟨run, -, rfl⟩ := Option.map_eq_some_iff.1 hstep
    exact ⟨.refl _, fun h ↦ absurd rfl (h stage)⟩

/-- **One action keeps manifests and releases behind Silver.** -/
theorem BehindSilver.step (h : world.BehindSilver) {action : LakehouseAction W}
    (hstep : world.step fns hash action = some world') : world'.BehindSilver := by
  obtain ⟨hextends, hgold⟩ := step_spec hstep
  have hversion := SilverLake.version_mono hextends
  have hrelease : (∀ stage, action ≠ .goldStage stage) →
      ∀ release, world'.gold.activeRelease = some release →
        ∀ t, release.silverVersions t ≤ world'.silver.version t := by
    intro hne release hactive t
    rw [hgold hne] at hactive
    exact (h.release release hactive t).trans (hversion t)
  have hold : ∀ writer t v, world.manifests writer t = some v → v ≤ world'.silver.version t :=
    fun writer t v hv ↦ (h.manifests writer t v hv).trans (hversion t)
  cases action with
  | commit t c =>
    obtain rfl := Option.some.inj hstep
    exact ⟨hold, hrelease nofun⟩
  | appendHistory t rows =>
    obtain rfl := Option.some.inj hstep
    exact ⟨hold, hrelease nofun⟩
  | mergeTable writer t c =>
    obtain ⟨hc, hstep⟩ := Option.ite_none_right_eq_some.1 hstep
    obtain rfl := Option.some.inj hstep
    refine ⟨fun writer' t' v hv ↦ ?_, hrelease nofun⟩
    rcases manifests_report _ _ _ _ hv with ⟨-, rfl, rfl⟩ | hv
    · exact (SilverLake.version_commit_self _ _ c (by rw [hc]; rfl)).ge
    · exact hold writer' t' v hv
  | replaceTable writer t c rows =>
    obtain ⟨hc, hstep⟩ := Option.ite_none_right_eq_some.1 hstep
    obtain rfl := Option.some.inj hstep
    refine ⟨fun writer' t' v hv ↦ ?_, hrelease nofun⟩
    rcases manifests_report _ _ _ _ hv with ⟨-, rfl, rfl⟩ | hv
    · exact (SilverLake.version_commit_self _ _ c (by rw [hc]; rfl)).ge
    · exact hold writer' t' v hv
  | keepTable writer t =>
    obtain rfl := Option.some.inj hstep
    refine ⟨fun writer' t' v hv ↦ ?_, hrelease nofun⟩
    rcases manifests_report _ _ _ _ hv with ⟨-, rfl, rfl⟩ | hv
    · -- the newest data commit is at most the newest commit
      refine TableLog.lastVersionWhere_le_of_imp (fun c hc ↦ ?_) _
      rw [of_decide_eq_true hc]
      rfl
    · exact hold writer' t' v hv
  | goldStage stage =>
    obtain ⟨run, hrun, rfl⟩ := Option.map_eq_some_iff.1 hstep
    obtain ⟨hlake, -, hmanifest⟩ := goldRun_spec h hrun
    refine ⟨h.manifests, fun release hactive t ↦ ?_⟩
    have hactive : (runGold fns hash run world.gold).1.activeRelease = some release := hactive
    rcases hpublishes : (runGold fns hash run world.gold).2.publishes with - | -
    · rw [activeRelease_of_not_publishes hpublishes] at hactive
      exact h.release release hactive t
    · -- published anew, or the active release with its versions refreshed
      obtain ⟨release', hactive', ⟨-, hversions⟩ | ⟨previous, -, -, hversions⟩⟩ :=
        activeRelease_of_publishes hpublishes
      · obtain rfl := Option.some.inj (hactive'.symm.trans hactive)
        rw [hversions]
        exact hlake ▸ currentSilverVersions_le hmanifest t
      · obtain rfl := Option.some.inj (hactive'.symm.trans hactive)
        rw [hversions]
        exact hlake ▸ refreshedVersions_le hmanifest t

/-- **In every reachable lakehouse no manifest and no release is ahead of Silver.** -/
theorem behindSilver_of_run {actions : List (LakehouseAction W)} (h : world.BehindSilver)
    (hrun : Runs.run (fun w a ↦ Lakehouse.step w fns hash a) world actions = some world') :
    world'.BehindSilver :=
  Runs.run_invariant_of_step BehindSilver (fun _ _ _ hw hstep ↦ hw.step hstep) h hrun

end Lakehouse

/-! ### What the runs read -/

namespace Lakehouse

variable {W : Type} [DecidableEq W] (fns : SparkFunctions) (hash : BusinessHash)

/-- A Gold stage that publishes a release other than by a full rebuild, on top of a release. -/
def incrementalRelease (world : Lakehouse W) (stage : GoldStage W) :
    Option (GoldRun × GoldRelease) :=
  (world.goldRun stage).bind fun run ↦ world.gold.activeRelease.bind fun previous ↦
    if !run.fullRebuild && (runGold fns hash run world.gold).2.publishes then some (run, previous)
    else none

/-- The range of a table that an action asks the feed for, with what the feed returns, if it is a
Gold stage that publishes an incremental release. -/
def readOf (t : SilverTable) (world : Lakehouse W) :
    LakehouseAction W → Option ((ℕ × ℕ) × List (ChangeRow (SilverColumns t)))
  | .goldStage stage =>
    (world.incrementalRelease fns hash stage).bind fun (run, previous) ↦
      (changeRange run previous.silverVersions t).map fun range ↦
        (range, run.lake.readChanges t range.1 range.2)
  | _ => none

/-- The reads along a run. -/
def reads (t : SilverTable) :
    Lakehouse W → List (LakehouseAction W) → List ((ℕ × ℕ) × List (ChangeRow (SilverColumns t)))
  | _, [] => []
  | world, action :: actions =>
    (readOf fns hash t world action).toList ++
      ((world.step fns hash action).elim [] fun world' ↦ reads t world' actions)

/-- The versions of a range, one by one. -/
def versionsIn (range : ℕ × ℕ) : List ℕ :=
  List.range' range.1 (range.2 + 1 - range.1)

variable {fns hash} {world world' : Lakehouse W}

omit [DecidableEq W] in
/-- **One Gold stage records progress.** -/
theorem progress_of_goldStage (h : world.BehindSilver) {stage : GoldStage W} {run : GoldRun}
    (hrun : world.goldRun stage = some run) (hfull : stage.fullRebuild = false)
    (hpublishes : (runGold fns hash run world.gold).2.publishes = true) :
    ∃ release, (runGold fns hash run world.gold).1.activeRelease = some release ∧
      (∀ previous, world.gold.activeRelease = some previous →
        ∀ t, previous.silverVersions t ≤ release.silverVersions t) ∧
      (∀ manifest, run.silverManifest = some manifest →
        ∀ t, manifest t ≤ release.silverVersions t) ∧
      ∀ t, release.silverVersions t ≤ world.silver.version t := by
  obtain ⟨hlake, hrebuild, hmanifest⟩ := goldRun_spec h hrun
  rcases hactive : world.gold.activeRelease with - | previous
  · obtain ⟨release, hrelease, ⟨-, hversions⟩ | ⟨previous, hprevious, -⟩⟩ :=
      activeRelease_of_publishes hpublishes
    · refine ⟨release, hrelease, (by simp), fun manifest hm t ↦ ?_, fun t ↦ ?_⟩
      · rw [hversions, currentSilverVersions, hm, Option.getD_some]
      · rw [hversions]
        exact hlake ▸ currentSilverVersions_le hmanifest t
    · cases hactive.symm.trans hprevious
  · obtain ⟨release, hrelease, hversions, hprogress⟩ :=
      activeRelease_of_incremental hactive (hrebuild.trans hfull) hpublishes
    refine ⟨release, hrelease, fun previous' hprevious t ↦ ?_, fun manifest hm t ↦ ?_, fun t ↦ ?_⟩
    · rw [hversions, ← Option.some.inj hprevious]
      exact hprogress t
    · rw [hversions]
      exact le_refreshedVersions hmanifest hm t
    · rw [hversions]
      exact hlake ▸ refreshedVersions_le hmanifest t

/-- What an action reads is the range between the releases before and after it. -/
theorem readOf_spec (h : world.BehindSilver) {action : LakehouseAction W}
    (hfull : LakehouseAction.isFullRebuild action = false)
    (hstep : world.step fns hash action = some world') {r : GoldRelease}
    (hactive : world.gold.activeRelease = some r) :
    ∃ r', world'.gold.activeRelease = some r' ∧ ∀ t,
      r.silverVersions t ≤ r'.silverVersions t ∧
      r'.silverVersions t ≤ world.silver.version t ∧
      readOf fns hash t world action =
        if r.silverVersions t < r'.silverVersions t then
          some ((r.silverVersions t + 1, r'.silverVersions t),
            world.silver.readChanges t (r.silverVersions t + 1) (r'.silverVersions t))
        else none := by
  obtain ⟨-, hgold⟩ := step_spec hstep
  -- a step of Silver reads no feed and leaves the active release as it is
  have hsilver : (∀ stage, action ≠ .goldStage stage) →
      (∀ t, readOf fns hash t world action = none) → ∃ r', world'.gold.activeRelease = some r' ∧
        ∀ t, r.silverVersions t ≤ r'.silverVersions t ∧
          r'.silverVersions t ≤ world.silver.version t ∧ readOf fns hash t world action =
          if r.silverVersions t < r'.silverVersions t then
            some ((r.silverVersions t + 1, r'.silverVersions t),
              world.silver.readChanges t (r.silverVersions t + 1) (r'.silverVersions t))
          else none := by
    intro hne hnone
    refine ⟨r, by rw [hgold hne, hactive], fun t ↦ ⟨le_rfl, h.release r hactive t, ?_⟩⟩
    rw [hnone, if_neg (lt_irrefl _)]
  cases action with
  | commit t c => exact hsilver nofun fun _ ↦ rfl
  | appendHistory t rows => exact hsilver nofun fun _ ↦ rfl
  | mergeTable writer t c => exact hsilver nofun fun _ ↦ rfl
  | replaceTable writer t c rows => exact hsilver nofun fun _ ↦ rfl
  | keepTable writer t => exact hsilver nofun fun _ ↦ rfl
  | goldStage stage =>
    obtain ⟨run, hrun, rfl⟩ := Option.map_eq_some_iff.1 hstep
    obtain ⟨hlake, hrebuild, hmanifest⟩ := goldRun_spec h hrun
    have hfull : run.fullRebuild = false := hrebuild.trans hfull
    rcases hpublishes : (runGold fns hash run world.gold).2.publishes with - | -
    · -- a Gold run that does not publish counts for no read
      have hnone : world.incrementalRelease fns hash stage = none := by
        rw [incrementalRelease, hrun, Option.bind_some, hactive, Option.bind_some, hpublishes,
          Bool.and_false]
        rfl
      refine ⟨r, (activeRelease_of_not_publishes hpublishes).trans hactive,
        fun t ↦ ⟨le_rfl, h.release r hactive t, ?_⟩⟩
      rw [readOf, hnone, Option.bind_none, if_neg (lt_irrefl _)]
    · obtain ⟨r', hactive', hversions, hprogress⟩ :=
        activeRelease_of_incremental hactive hfull hpublishes
      have hsome : world.incrementalRelease fns hash stage = some (run, r) := by
        rw [incrementalRelease, hrun, Option.bind_some, hactive, Option.bind_some, hpublishes,
          hfull]
        rfl
      refine ⟨r', hactive', fun t ↦ ⟨hversions ▸ hprogress t,
        hversions ▸ hlake ▸ refreshedVersions_le hmanifest t, ?_⟩⟩
      rw [readOf, hsome, ← hlake]
      show (changeRange run r.silverVersions t).map _ = _
      rw [changeRange, hversions]
      split <;> rfl

/-- Silver only grows along a run. -/
theorem extends_of_run {actions : List (LakehouseAction W)}
    (hrun : Runs.run (fun w a ↦ Lakehouse.step w fns hash a) world actions = some world') :
    world.silver.Extends world'.silver :=
  Runs.run_invariant_of_step (fun w ↦ world.silver.Extends w.silver)
    (fun _ _ _ hw hstep ↦ hw.trans (step_spec hstep).1) (.refl _) hrun

/-- Adjacent ranges of versions. -/
theorem versionsIn_append {a b c : ℕ} (hab : a ≤ b) (hbc : b ≤ c) :
    versionsIn (a + 1, b) ++ versionsIn (b + 1, c) = versionsIn (a + 1, c) := by
  have hadd : a + 1 + (b + 1 - (a + 1)) = b + 1 := by omega
  have hlength : b + 1 - (a + 1) + (c + 1 - (b + 1)) = c + 1 - (a + 1) := by omega
  show List.range' (a + 1) (b + 1 - (a + 1)) ++ List.range' (b + 1) (c + 1 - (b + 1)) =
    List.range' (a + 1) (c + 1 - (a + 1))
  rw [← hlength, ← List.range'_append_1, hadd]

/-- **The reads along a run tile the versions between its releases**, each version once and in
order, and together they are the feed of the whole range. -/
theorem reads_tile {actions : List (LakehouseAction W)} (h : world.BehindSilver)
    (hfull : ∀ action ∈ actions, LakehouseAction.isFullRebuild action = false)
    (hrun : Runs.run (fun w a ↦ Lakehouse.step w fns hash a) world actions = some world')
    {r : GoldRelease} (hactive : world.gold.activeRelease = some r) :
    ∃ r', world'.gold.activeRelease = some r' ∧ ∀ t,
      r.silverVersions t ≤ r'.silverVersions t ∧
      (reads fns hash t world actions).flatMap (fun read ↦ versionsIn read.1) =
        versionsIn (r.silverVersions t + 1, r'.silverVersions t) ∧
      (reads fns hash t world actions).flatMap (fun read ↦ read.2) =
        world'.silver.readChanges t (r.silverVersions t + 1) (r'.silverVersions t) := by
  induction actions generalizing world r with
  | nil =>
    obtain rfl := Option.some.inj hrun
    refine ⟨r, hactive, fun t ↦ ⟨le_rfl, ?_, ?_⟩⟩
    · show [] = List.range' (r.silverVersions t + 1) (r.silverVersions t + 1 - _)
      rw [Nat.sub_self, List.range'_zero]
    · exact (SilverLake.readChanges_self _ _ _).symm
  | cons action actions ih =>
    obtain ⟨middle, hstep, hrest⟩ := Runs.run_cons_eq_some.1 hrun
    have hstep : world.step fns hash action = some middle := hstep
    obtain ⟨r₁, hactive₁, hread⟩ := readOf_spec h (hfull action List.mem_cons_self) hstep hactive
    obtain ⟨r', hactive', htile⟩ := ih (h.step hstep)
      (fun a ha ↦ hfull a (List.mem_cons_of_mem action ha)) hrest hactive₁
    refine ⟨r', hactive', fun t ↦ ?_⟩
    obtain ⟨hle, hversion, hreadt⟩ := hread t
    obtain ⟨hle', hversions, hfeed⟩ := htile t
    refine ⟨hle.trans hle', ?_, ?_⟩
    · rw [reads, hstep, List.flatMap_append, hreadt]
      show _ ++ (reads fns hash t middle actions).flatMap _ = _
      rw [hversions, ← versionsIn_append hle hle']
      congr 1
      split
      · simp
      · have heq : r₁.silverVersions t = r.silverVersions t := by omega
        simp [versionsIn, heq]
    · rw [reads, hstep, List.flatMap_append, hreadt]
      show _ ++ (reads fns hash t middle actions).flatMap _ = _
      rw [hfeed, ← SilverLake.readChanges_append _ t (Nat.add_le_add_right hle 1) hle']
      congr 1
      -- what was read then is what the feed would return now
      have hlength : r₁.silverVersions t ≤ (world.silver.tables t).length - 1 :=
        hversion.trans (TableLog.lastVersionWhere_le _ _)
      split
      · rename_i hlt
        rw [Option.toList_some, List.flatMap_singleton]
        exact (SilverLake.readChanges_of_extends (extends_of_run hrun) (by omega) _).symm
      · have heq : r₁.silverVersions t = r.silverVersions t := by omega
        rw [heq, SilverLake.readChanges_self]
        rfl

/-- **Progress is monotone and without gaps**, in every lakehouse that any interleaving of writers
leads to: a release other than by a full rebuild is nowhere behind the release before and the
manifest and nowhere ahead of Silver, and from there on the runs read every later version of every
table once. -/
theorem goldProgress_tiles {prior : List (LakehouseAction W)}
    (hprior : Runs.run (fun w a ↦ Lakehouse.step w fns hash a) empty prior = some world) :
    (∀ stage run, world.goldRun stage = some run → stage.fullRebuild = false →
      (runGold fns hash run world.gold).2.publishes = true →
        ∃ release, (runGold fns hash run world.gold).1.activeRelease = some release ∧
          (∀ previous, world.gold.activeRelease = some previous →
            ∀ t, previous.silverVersions t ≤ release.silverVersions t) ∧
          (∀ manifest, run.silverManifest = some manifest →
            ∀ t, manifest t ≤ release.silverVersions t) ∧
          ∀ t, release.silverVersions t ≤ world.silver.version t) ∧
    ∀ actions world' r, (∀ action ∈ actions, LakehouseAction.isFullRebuild action = false) →
      Runs.run (fun w a ↦ Lakehouse.step w fns hash a) world actions = some world' →
      world.gold.activeRelease = some r →
        ∃ r', world'.gold.activeRelease = some r' ∧ ∀ t,
          r.silverVersions t ≤ r'.silverVersions t ∧
          (reads fns hash t world actions).flatMap (fun read ↦ versionsIn read.1) =
            versionsIn (r.silverVersions t + 1, r'.silverVersions t) ∧
          (reads fns hash t world actions).flatMap (fun read ↦ read.2) =
            world'.silver.readChanges t (r.silverVersions t + 1) (r'.silverVersions t) := by
  have hbehind := behindSilver_of_run behindSilver_empty hprior
  exact ⟨fun _ _ ↦ progress_of_goldStage hbehind,
    fun _ _ _ hfull hrun ↦ reads_tile hbehind hfull hrun⟩

end Lakehouse

/-! ### Two batch runs and a CDC merge -/

/-- All appends and commits of a lake. -/
def writes (lake : SilverLake) : List (LakehouseAction Bool) :=
  silverTables.flatMap fun t ↦
    (lake.histories t).map (.appendHistory t) ++ (lake.tables t).map (.commit t)

/-- A Gold stage that nothing kills. -/
def smallStage (writer : Option Bool) : GoldStage Bool :=
  ⟨writer, false, none, fun _ ↦ false, false⟩

/-- A small lake and its first release. -/
def firstActions : List (LakehouseAction Bool) :=
  writes (smallLake [] [] [] []) ++ [.goldStage (smallStage none)]

/-- The shop is renamed. -/
def renamedShop (old new : Char) (pipeline : SilverPipeline) : SilverCommit ShopColumns where
  rows := [smallRow 7 (smallShop new)]
  feed := mergeFeed [smallRow 7 (smallShop old)] [smallRow 7 (smallShop new)]
  pipeline := some pipeline

/-- Each of two batch runs merges a new name, and CDC a third one before the first of them gets to
Gold; the second gets there after a run that reads the versions itself, with its manifest behind. -/
def racingActions : List (LakehouseAction Bool) :=
  .mergeTable false .shops (renamedShop 'a' 'b' .bronzeToSilver) ::
    (silverTables.filter fun t ↦ t ≠ .shops).map (.keepTable false) ++
  [.commit .shops (renamedShop 'b' 'c' .cdcToSilver), .goldStage (smallStage (some false)),
    .mergeTable true .shops (renamedShop 'c' 'd' .bronzeToSilver)] ++
  (silverTables.filter fun t ↦ t ≠ .shops).map (.keepTable true) ++
  [.commit .shops (renamedShop 'd' 'e' .cdcToSilver), .goldStage (smallStage none),
    .goldStage (smallStage (some true))]

theorem goldProgress_tiles_racing : ∃ world world' : Lakehouse Bool, ∃ r r',
    world.gold.activeRelease = some r ∧ world'.gold.activeRelease = some r' ∧
      (world.reads .plain smallHash .shops racingActions).flatMap
          (fun read ↦ Lakehouse.versionsIn read.1) =
        Lakehouse.versionsIn (r.silverVersions .shops + 1, r'.silverVersions .shops) := by
  have hsome : (((Runs.run (fun w a ↦ Lakehouse.step w .plain smallHash a)
      (Lakehouse.empty (W := Bool)) firstActions).bind fun world ↦
    world.gold.activeRelease.bind fun _ ↦
      Runs.run (fun w a ↦ Lakehouse.step w .plain smallHash a) world racingActions)).isSome := by
    decide +kernel
  obtain ⟨world', hworld'⟩ := Option.isSome_iff_exists.1 hsome
  obtain ⟨world, hprior, hbind⟩ := Option.bind_eq_some_iff.1 hworld'
  obtain ⟨r, hactive, hrun⟩ := Option.bind_eq_some_iff.1 hbind
  obtain ⟨r', hactive', htile⟩ := (Lakehouse.goldProgress_tiles hprior).2 racingActions world' r
    (by decide) hrun hactive
  exact ⟨world, world', r, r', hactive, hactive', (htile .shops).2.1⟩

end LakehousePipeline
