import LakehousePipeline.Jobs.SilverProgress
import LakehousePipeline.Library.Checks

/-!
# Validation

A workflow ends with `validate_gold_release`, which compares the Silver versions of the active Gold
release with those of the run. Others publish between the Gold stage of the run and its validation;
they never take a release back, but for a forced full rebuild that is handed an older manifest
(`validateGoldRelease_of_run`).

`validate_batch_lakehouse` looks at all layers. The shortcut of a run that extracts nothing compares
Gold with Silver only; the validation also compares the progress of Silver with that of Bronze, so a
lake that passes has no backlog, and no run strands a row of it by the shortcut
(`validated_of_validateBatchLakehouse`).

The columns that are not nullable here (keys and most of the Bronze metadata) pass their null checks
anyway, and the sets of tables in a release and in a complete manifest are those of the contract;
these checks are left out.

`HasReached` is the invariant behind the first result. A Gold stage starts from the versions of the
active release or from later ones, so a release that has reached the versions of a run is followed
by such releases only; a full rebuild takes its versions from its manifest and is asked not to be
handed an older one. For the second result nothing has to be followed: the checks are about one
state, and what they say of its progress combines with what every reachable state remembers
(`inv_of_run`).
-/

namespace LakehousePipeline

/-! ### The release -/

/-- How `validate_gold_release` raises. -/
inductive GoldReleaseError
  /-- "Gold has no published release". -/
  | noRelease
  /-- "Silver manifest does not contain every contracted table". -/
  | incompleteManifest
  /-- "Gold progress is behind the orchestrated Silver output". -/
  | lagging (tables : List SilverTable)
  deriving DecidableEq, Repr

/-- `validation_source`. -/
inductive ValidationSource
  | goldRelease
  | silverManifest
  deriving DecidableEq, Repr

/-- The report of `validate_gold_release`, without the batch id of the release. -/
structure GoldReleaseReport where
  /-- `silver_table_count`. -/
  silverTableCount : ℕ
  /-- `gold_table_count`. -/
  goldTableCount : ℕ
  /-- `superseded`. -/
  superseded : Bool
  /-- `validation_source`. -/
  validationSource : ValidationSource
  deriving DecidableEq, Repr

/-- The version of each table the release is compared with. -/
def expectedVersions (release : GoldRelease) (manifest : Option (SilverTable → Option ℕ))
    (t : SilverTable) : Option ℕ :=
  manifest.elim (some (release.silverVersions t)) fun m ↦ m t

/-- The report of a release that passes. -/
def goldReleaseReport (release : GoldRelease) (manifest : Option (SilverTable → Option ℕ)) :
    GoldReleaseReport where
  silverTableCount := silverTables.length
  goldTableCount := goldTables.length
  superseded := silverTables.any fun t ↦
    some (release.silverVersions t) ≠ expectedVersions release manifest t
  validationSource := if manifest.isNone then .goldRelease else .silverManifest

namespace Lakehouse

variable {W : Type} [DecidableEq W]

/-- `validate_gold_release`, with the manifest of a batch run or without one. -/
def validateGoldRelease (world : Lakehouse W) (manifest : Option (SilverTable → Option ℕ)) :
    Except GoldReleaseError GoldReleaseReport :=
  match world.gold.activeRelease with
  | none => .error .noRelease
  | some release => do
    Checks.ensure (∀ t ∈ silverTables, (expectedVersions release manifest t).isSome)
      .incompleteManifest
    let lagging := silverTables.filter fun t ↦
      (expectedVersions release manifest t).any (release.silverVersions t < ·)
    Checks.ensure (lagging = []) (.lagging lagging)
    pure (goldReleaseReport release manifest)

variable {fns : SparkFunctions} {hash : BusinessHash} {world world' world'' : Lakehouse W}
  {versions : SilverTable → ℕ}

/-- A forced full rebuild that is handed a manifest is handed none that is older anywhere. -/
def NoOlderRebuild (versions : SilverTable → ℕ) (world : Lakehouse W) : LakehouseAction W → Prop
  | .goldStage stage => stage.fullRebuild = true →
    ∀ writer, stage.writer = some writer → ∀ newer, world.committedVersions writer = some newer →
      ∀ t, versions t ≤ newer t
  | _ => True

/-- The active release has some Silver versions, or later ones. -/
structure HasReached (versions : SilverTable → ℕ) (world : Lakehouse W) : Prop where
  behind : world.BehindSilver
  silver : ∀ t, versions t ≤ world.silver.version t
  release : ∃ release, world.gold.activeRelease = some release ∧
    ∀ t, versions t ≤ release.silverVersions t

omit [DecidableEq W] in
/-- A Gold stage takes no release back, unless it is a full rebuild with an older manifest. -/
theorem HasReached.goldStage (h : world.HasReached versions) {stage : GoldStage W} {run : GoldRun}
    (hrun : world.goldRun stage = some run)
    (hrebuild : world.NoOlderRebuild versions (.goldStage stage)) :
    ∃ release, (runGold fns hash run world.gold).1.activeRelease = some release ∧
      ∀ t, versions t ≤ release.silverVersions t := by
  obtain ⟨previous, hprevious, hle⟩ := h.release
  obtain ⟨hlake, hfull, -⟩ := goldRun_spec h.behind hrun
  rcases hpublishes : (runGold fns hash run world.gold).2.publishes with - | -
  · exact ⟨previous, (activeRelease_of_not_publishes hpublishes).trans hprevious, hle⟩
  · rcases hstage : stage.fullRebuild with - | -
    · obtain ⟨release, hrelease, hgrows, -, -⟩ := progress_of_goldStage h.behind hrun hstage
        hpublishes
      exact ⟨release, hrelease, fun t ↦ (hle t).trans (hgrows previous hprevious t)⟩
    · obtain ⟨release, hrelease, ⟨-, hversions⟩ | ⟨-, -, hnot, -⟩⟩ :=
        activeRelease_of_publishes hpublishes
      · refine ⟨release, hrelease, fun t ↦ ?_⟩
        rw [hversions, currentSilverVersions]
        rw [goldRun] at hrun
        split at hrun
        · -- without a manifest the rebuild takes the latest versions
          obtain rfl := Option.some.inj hrun
          exact h.silver t
        · rename_i writer hwriter
          obtain ⟨newer, hnewer, rfl⟩ := Option.map_eq_some_iff.1 hrun
          exact hrebuild hstage writer hwriter newer hnewer t
      · rw [hfull, hstage] at hnot
        cases hnot

/-- The step. -/
theorem HasReached.step (h : world.HasReached versions) {action : LakehouseAction W}
    (hrebuild : world.NoOlderRebuild versions action)
    (hstep : world.step fns hash action = some world') : world'.HasReached versions := by
  obtain ⟨hextends, hgold⟩ := step_spec hstep
  refine ⟨h.behind.step hstep, fun t ↦ (h.silver t).trans (SilverLake.version_mono hextends t), ?_⟩
  cases action with
  | commit | appendHistory | mergeTable | replaceTable | keepTable =>
    rw [hgold fun _ heq ↦ by cases heq]
    exact h.release
  | goldStage stage =>
    obtain ⟨run, hrun, rfl⟩ := Option.map_eq_some_iff.1 hstep
    exact h.goldStage hrun hrebuild

omit [DecidableEq W] in
/-- A release that has reached the versions of a manifest passes. -/
theorem HasReached.validateGoldRelease (h : world.HasReached versions) :
    ∃ release report, world.gold.activeRelease = some release ∧
      world.validateGoldRelease (some fun t ↦ some (versions t)) = .ok report ∧
      (report.superseded = true ↔ release.silverVersions ≠ versions) := by
  obtain ⟨release, hrelease, hle⟩ := h.release
  have hlagging : (silverTables.filter fun t ↦
      (some (versions t)).any (release.silverVersions t < ·)) = [] :=
    List.filter_eq_nil_iff.2 fun t _ ↦ by simpa using hle t
  refine ⟨release, goldReleaseReport release (some fun t ↦ some (versions t)), hrelease, ?_, ?_⟩
  · rw [Lakehouse.validateGoldRelease, hrelease]
    exact Checks.ensure_bind_eq_ok.2 ⟨fun _ _ ↦ rfl, Checks.ensure_bind_eq_ok.2 ⟨hlagging, rfl⟩⟩
  · rw [goldReleaseReport, List.any_eq_true]
    constructor
    · rintro ⟨t, -, hne⟩ rfl
      simp [expectedVersions] at hne
    · intro hne
      obtain ⟨t, ht⟩ := Function.ne_iff.1 hne
      exact ⟨t, mem_silverTables t, by simpa [expectedVersions] using ht⟩

/-- **A run that has been through Gold passes its validation**, however late it comes: whatever
others write to Silver and publish in between, the active release has the Silver versions of the
run or later ones, and the report says which. Only a forced full rebuild takes a release back that
is handed an older manifest. -/
theorem validateGoldRelease_of_run {prior later : List (LakehouseAction W)}
    (hprior : Runs.run (fun w a ↦ Lakehouse.step w fns hash a) empty prior = some world)
    {stage : GoldStage W} {writer : W} (hwriter : stage.writer = some writer)
    (hversions : world.committedVersions writer = some versions) {run : GoldRun}
    (hrun : world.goldRun stage = some run)
    (hends : (runGold fns hash run world.gold).2.publishes = true ∨
      (runGold fns hash run world.gold).2 = .upToDate)
    (hstep : world.step fns hash (.goldStage stage) = some world')
    (hrebuild : Runs.Along (fun w a ↦ Lakehouse.step w fns hash a) (NoOlderRebuild versions)
      world' later)
    (hlater : Runs.run (fun w a ↦ Lakehouse.step w fns hash a) world' later = some world'') :
    ∃ release report, world''.gold.activeRelease = some release ∧
      world''.validateGoldRelease (some fun t ↦ some (versions t)) = .ok report ∧
      (report.superseded = true ↔ release.silverVersions ≠ versions) := by
  have hbehind := behindSilver_of_run behindSilver_empty hprior
  have hmanifest : run.silverManifest = some versions := by
    rw [goldRun, hwriter] at hrun
    obtain ⟨versions', hversions', rfl⟩ := Option.map_eq_some_iff.1 hrun
    rw [Option.some.inj (hversions'.symm.trans hversions)]
  have hreached : world'.HasReached versions := by
    refine ⟨hbehind.step hstep, fun t ↦ ?_, ?_⟩
    · exact (le_of_committedVersions hbehind hversions t).trans
        (SilverLake.version_mono (step_spec hstep).1 t)
    · obtain ⟨run', hrun', rfl⟩ := Option.map_eq_some_iff.1 hstep
      obtain rfl := Option.some.inj (hrun.symm.trans hrun')
      exact BatchLake.release_of_goldStage hbehind hrun hends hmanifest
  exact (Runs.run_invariant (HasReached versions) (fun _ _ _ hw hok hstep ↦ hw.step hok hstep)
    hreached hrebuild hlater).validateGoldRelease

end Lakehouse

/-- A batch run merges a new name of a shop, CDC another one. -/
def beforeGold : List (LakehouseAction Bool) :=
  firstActions ++ .mergeTable false .shops (renamedShop 'a' 'b' .bronzeToSilver) ::
    (silverTables.filter fun t ↦ t ≠ .shops).map (.keepTable false) ++
  [.commit .shops (renamedShop 'b' 'c' .cdcToSilver)]

/-- Before its validation CDC merges and publishes again. -/
def beforeValidation : List (LakehouseAction Bool) :=
  [.commit .shops (renamedShop 'c' 'd' .cdcToSilver), .goldStage (smallStage none)]

/-- CDC publishes between the Gold stage and the validation, and the run still passes. -/
theorem validateGoldRelease_of_run_racing : ∃ world'' : Lakehouse Bool, ∃ versions release report,
    Runs.run (fun w a ↦ Lakehouse.step w .plain smallHash a) (Lakehouse.empty (W := Bool))
        (beforeGold ++ .goldStage (smallStage (some false)) :: beforeValidation) = some world'' ∧
      world''.gold.activeRelease = some release ∧
      world''.validateGoldRelease (some fun t ↦ some (versions t)) = .ok report ∧
      (report.superseded = true ↔ release.silverVersions ≠ versions) := by
  have hruns : ((Runs.run (fun w a ↦ Lakehouse.step w .plain smallHash a)
      (Lakehouse.empty (W := Bool)) beforeGold).any fun world ↦
    (world.committedVersions false).isSome &&
      (world.goldRun (smallStage (some false))).any fun run ↦
        (runGold .plain smallHash run world.gold).2.publishes &&
          (world.step .plain smallHash (.goldStage (smallStage (some false)))).any fun world' ↦
            (Runs.run (fun w a ↦ Lakehouse.step w .plain smallHash a) world'
              beforeValidation).isSome) = true := by
    decide +kernel
  obtain ⟨world, hprior, hruns⟩ := (Option.any_eq_true _ _).1 hruns
  obtain ⟨hversions, hruns⟩ := Bool.and_eq_true_iff.1 hruns
  obtain ⟨versions, hversions⟩ := Option.isSome_iff_exists.1 hversions
  obtain ⟨run, hrun, hruns⟩ := (Option.any_eq_true _ _).1 hruns
  obtain ⟨hpublishes, hruns⟩ := Bool.and_eq_true_iff.1 hruns
  obtain ⟨world', hstep, hruns⟩ := (Option.any_eq_true _ _).1 hruns
  obtain ⟨world'', hlater⟩ := Option.isSome_iff_exists.1 hruns
  have hrebuild : ∀ action ∈ beforeValidation, ∀ world : Lakehouse Bool,
      world.NoOlderRebuild versions action := by
    intro action haction world
    rcases List.mem_pair.1 haction with rfl | rfl
    · trivial
    · intro hfull
      cases hfull
  obtain ⟨release, report, hreport⟩ := Lakehouse.validateGoldRelease_of_run hprior rfl hversions
    hrun (Or.inl hpublishes) hstep (Runs.along_of_forall hrebuild world') hlater
  refine ⟨world'', versions, release, report, ?_, hreport⟩
  exact Runs.run_append_eq_some.2 ⟨world, hprior, Runs.run_cons_eq_some.2 ⟨world', hstep, hlater⟩⟩

/-! ### The lakehouse -/

/-- How `validate_batch_lakehouse` raises. -/
inductive BatchValidationError
  /-- A Bronze or Silver table is missing. -/
  | missingTable (t : SilverTable)
  /-- "Silver progress is not aligned with Bronze for {table}". -/
  | silverNotAligned (t : SilverTable) (bronzeVersion : ℕ) (silverVersion : Option ℕ)
  /-- "Bronze Delta progress metadata is invalid for {table}". -/
  | invalidProgress (t : SilverTable)
  /-- "Duplicate source version in bronze.{table}". -/
  | duplicateSourceVersion (t : SilverTable)
  /-- "Null ingestion metadata in bronze.{table}". -/
  | nullMetadata (t : SilverTable)
  /-- "Duplicate key in silver.{table}: {keys}". -/
  | duplicateKey (t : SilverTable)
  /-- "Silver contains an event beyond Bronze progress for {table}". -/
  | beyondProgress (t : SilverTable)
  /-- "Silver row count exceeds combined Bronze source versions for {table}". -/
  | tooManyRows (t : SilverTable) (silver batchBronze streamingBronze : ℕ)
  /-- "Delta data progress metadata is missing for {table}". -/
  | missingProgress (t : SilverTable)
  /-- "Gold progress is not aligned with Silver". -/
  | goldNotAligned
  /-- An error of the Gold quality checker. -/
  | quality (error : GoldQualityError)
  deriving DecidableEq, Repr

/-- `LayerTableReport`. -/
structure LayerTableReport where
  /-- `table_name`. -/
  tableName : SilverTable
  /-- `bronze_versions`. -/
  bronzeVersions : ℕ
  /-- `silver_rows`. -/
  silverRows : ℕ
  deriving DecidableEq, Repr

namespace BatchLake

variable {W : Type} [DecidableEq W] (world : BatchLake W) (streamingCounts : SilverTable → ℕ)

/-- The version of the latest data commit of a Silver table, as `latest_delta_pipeline_commit` finds
it. -/
def currentSilverVersion (t : SilverTable) : Option ℕ :=
  TableLog.recentVersionWhere (fun c : SilverCommit (SilverColumns t) ↦ c.pipeline.isSome)
    progressHistoryFallbackLimit (world.lakehouse.silver.tables t)

/-- The checks of one table, in their order, with the number of its valid raw CDC events. -/
def validateTable (t : SilverTable) : Except BatchValidationError LayerTableReport := do
  let log := world.bronze t
  let bronze := world.bronzeRows t 0 log.length
  let physicalSilver := world.lakehouse.silver.currentRows t
  Checks.ensure (log ≠ []) (.missingTable t)
  Checks.ensure (world.lakehouse.silver.tables t ≠ []) (.missingTable t)
  let bronzeVersion := (bronzeProgressVersion log).getD (log.length - 1)
  let silverVersion := (deltaTableState (world.processed t) (world.lakehouse.silver.tables t)).bind
    fun state ↦ state.progress
  Checks.ensure (silverVersion = some bronzeVersion)
    (.silverNotAligned t bronzeVersion silverVersion)
  let lastEventId := (bronzeProgressVersion log).bind fun version ↦
    log[version]?.bind fun c ↦ c.lastEventId
  Checks.ensure lastEventId.isSome (.invalidProgress t)
  Checks.ensure (bronze.map fun e ↦ e.eventId).Nodup (.duplicateSourceVersion t)
  Checks.ensure (∀ e ∈ bronze, e.eventOccurredAt.isSome) (.nullMetadata t)
  Checks.ensure (physicalSilver.map fun row ↦ row.key).Nodup (.duplicateKey t)
  Checks.ensure (∀ row ∈ physicalSilver, row.ingestionMode = .batch →
    ∀ id ∈ row.sourceEventSequence, id ≤ lastEventId.getD 0) (.beyondProgress t)
  Checks.ensure (physicalSilver.length ≤ bronze.length + streamingCounts t)
    (.tooManyRows t physicalSilver.length bronze.length (streamingCounts t))
  Checks.ensure (world.currentSilverVersion t).isSome (.missingProgress t)
  pure ⟨t, bronze.length, (world.lakehouse.silver.rows t).length⟩

/-- `validate_batch_lakehouse`, without the counts of the Gold report. -/
def validateBatchLakehouse : Except BatchValidationError (List LayerTableReport) := do
  let reports ← silverTables.mapM (world.validateTable streamingCounts)
  match world.lakehouse.gold.activeRelease with
  | none => .error .goldNotAligned
  | some release => do
    Checks.ensure (∀ t ∈ silverTables,
      world.currentSilverVersion t = some (release.silverVersions t)) .goldNotAligned
    match qualityRun (world.lakehouse.gold.view release) (world.lakehouse.silver.rows .orders)
        (world.lakehouse.silver.rows .orderItems) with
    | .error error => .error (.quality error)
    | .ok () => pure reports

/-! ### What a passed validation says -/

variable {world streamingCounts} {fns : SparkFunctions} {hash : BusinessHash} {clean : Cleaning}
  {world' : BatchLake W} {t : SilverTable} {report : LayerTableReport}
  {reports : List LayerTableReport}

omit [DecidableEq W] in
/-- A table that passes has its last Batch commit at the progress of Bronze, and distinct keys. -/
theorem validateTable_spec (h : world.validateTable streamingCounts t = .ok report) :
    (∃ version c, (world.lakehouse.silver.tables t)[version]? = some c ∧ c.isBatch = true ∧
      bronzeProgressVersion (world.bronze t) = some (world.processed t version)) ∧
      ((world.lakehouse.silver.currentRows t).map fun row ↦ row.key).Nodup ∧
      (world.currentSilverVersion t).isSome = true := by
  simp only [validateTable, Checks.ensure_bind_eq_ok] at h
  obtain ⟨-, hsilver, haligned, hcursor, -, -, hkeys, -, -, hversion, -⟩ := h
  refine ⟨?_, hkeys, hversion⟩
  obtain ⟨id, hid⟩ := Option.isSome_iff_exists.1 hcursor
  obtain ⟨progress, hprogress, -⟩ := Option.bind_eq_some_iff.1 hid
  rw [deltaTableState_eq _ hsilver, Option.bind_some, hprogress, Option.getD_some] at haligned
  obtain ⟨version, hrecent, hprocessed⟩ := Option.map_eq_some_iff.1 haligned
  obtain ⟨-, c, hc, hbatch⟩ := TableLog.recentVersionWhere_spec hrecent
  exact ⟨version, c, hc, hbatch, by rw [hprogress, hprocessed]⟩

omit [DecidableEq W] in
/-- A lake that passes has a table report for each table and a release that passes. -/
theorem validateBatchLakehouse_spec
    (h : world.validateBatchLakehouse streamingCounts = .ok reports) :
    (∀ t, ∃ report, world.validateTable streamingCounts t = .ok report) ∧
      ∃ release, world.lakehouse.gold.activeRelease = some release ∧
        (∀ t, world.currentSilverVersion t = some (release.silverVersions t)) ∧
        qualityRun (world.lakehouse.gold.view release) (world.lakehouse.silver.rows .orders)
          (world.lakehouse.silver.rows .orderItems) = .ok () := by
  obtain ⟨reports', htables, h⟩ := Checks.exists_of_bind_eq_ok h
  refine ⟨fun t ↦ Checks.exists_of_mem_of_mapM_eq_ok htables t (mem_silverTables t), ?_⟩
  split at h
  · cases h
  · rename_i release hrelease
    obtain ⟨hversions, h⟩ := Checks.ensure_bind_eq_ok.1 h
    refine ⟨release, hrelease, fun t ↦ hversions t (mem_silverTables t), ?_⟩
    split at h
    · cases h
    · assumption

/-- **A lake without a backlog**: all rows in Bronze have been merged into Silver, whose keys are
distinct, and the active release records the latest data versions of Silver, refers to no member
that is not there, and has one fact for each order item. -/
structure Validated (world : BatchLake W) : Prop where
  merged : ∀ t u, HasRows (world.bronze t) u → u ∈ world.merged t
  distinct : ∀ t, ((world.lakehouse.silver.currentRows t).map fun row ↦ row.key).Nodup
  release : ∃ release, world.lakehouse.gold.activeRelease = some release ∧
    (∀ t, release.silverVersions t = world.lakehouse.silver.version t) ∧
    (world.lakehouse.gold.view release).Closed ∧
    (List.map FactRow.sourceKey (world.lakehouse.gold.view release .factSales)).Perm
      ((world.lakehouse.silver.rows .orderItems).map fun item ↦
        (OrderItemColumns.orderId item.payload, item.key))

/-- **A lake that passes validation has no backlog**, whatever runs and kills have led to it; so any
run that extracts nothing after it and takes the shortcut strands nothing. -/
theorem validated_of_validateBatchLakehouse {actions : List (BatchAction W)}
    (hrun : Runs.run (fun w a ↦ BatchLake.step w fns hash clean a) empty actions = some world)
    (h : world.validateBatchLakehouse streamingCounts = .ok reports) :
    world.Validated ∧ ∀ writer, world.NoBacklog writer ∧
      ∀ world', world.step fns hash clean (.skip writer) = some world' →
        world'.Delivered writer := by
  have hinv := inv_of_run inv_empty hrun
  obtain ⟨htables, release, hrelease, hversions, hquality⟩ := validateBatchLakehouse_spec h
  have hprocessed : ∀ t u, HasRows (world.bronze t) u → ∃ version c,
      (world.lakehouse.silver.tables t)[version]? = some c ∧ c.isBatch = true ∧
        u ≤ world.processed t version := by
    intro t u hrows
    obtain ⟨report, hreport⟩ := htables t
    obtain ⟨⟨version, c, hc, hbatch, hprogress⟩, -⟩ := validateTable_spec hreport
    exact ⟨version, c, hc, hbatch,
      (bronzeProgressVersion_spec (hinv.kept t) hprogress).2 u hrows⟩
  have hbacklog : ∀ writer, world.NoBacklog writer :=
    fun writer t u _ hrows ↦ hprocessed t u hrows
  have hdistinct : ∀ t, ((world.lakehouse.silver.currentRows t).map fun row ↦ row.key).Nodup := by
    intro t
    obtain ⟨report, hreport⟩ := htables t
    exact (validateTable_spec hreport).2.1
  refine ⟨⟨fun t u hrows ↦ ?_, hdistinct, release, hrelease, fun t ↦ ?_,
    closed_of_qualityRun hquality, ?_⟩,
    fun writer ↦ ⟨hbacklog writer, fun world' hstep ↦ ?_⟩⟩
  · obtain ⟨version, c, hc, hbatch, hle⟩ := hprocessed t u hrows
    exact (hinv.processed t version c hc hbatch).merged u hle hrows
  · exact (TableLog.recentVersionWhere_spec (hversions t)).1
  · exact perm_sourceKey_of_assertReconciliation (assertReconciliation_of_qualityRun hquality)
      (nodup_key_visibleRows (hdistinct .orderItems))
  · exact delivered_of_skip hinv (hbacklog writer) hstep

/-- A batch run that ends. -/
def endedActions : List (BatchAction ℕ) :=
  .extract 0 (foundShops [insertedShop 1 7 'a']) :: silverStage 0 ++ [.goldStage (lastStage 0)]

/-- A batch run that ends leaves a lake that passes. -/
theorem validated_of_validateBatchLakehouse_ended : ∃ world : BatchLake ℕ,
    smallBatches endedActions = some world ∧ world.Validated ∧
      ∀ writer, world.NoBacklog writer ∧
        ∀ world', world.step .plain smallHash (fun _ ↦ id) (.skip writer) = some world' →
          world'.Delivered writer := by
  have hrun : ((smallBatches endedActions).any fun world ↦
      (world.validateBatchLakehouse fun _ ↦ 0).isOk) = true := by
    decide +kernel
  obtain ⟨world, hworld, hvalid⟩ := (Option.any_eq_true _ _).1 hrun
  rcases hreports : world.validateBatchLakehouse fun _ ↦ 0 with error | reports
  · rw [hreports] at hvalid
    cases hvalid
  · exact ⟨world, hworld, validated_of_validateBatchLakehouse hworld hreports⟩

/-- The backlog behind the shortcut is found. -/
example : ((smallBatches (killedActions ++ [.extract 2 (foundShops []), .skip 2])).map fun world ↦
    world.validateBatchLakehouse fun _ ↦ 0) =
      some (.error (.silverNotAligned .shops 1 (some 0))) := by
  decide +kernel

end BatchLake

end LakehousePipeline
