import LakehousePipeline.Gold.FactIncremental
import LakehousePipeline.Library.TableLog

/-!
# `GoldBuilder`

A Gold run brings the Gold tables up to date with Silver and then publishes a release: the Silver
versions it has processed and one version of every Gold table, written as a property of
`fact_sales`. Readers follow the active release, so they keep seeing the versions it pins while the
next run writes.

A full run rebuilds every table before its gate looks at the result. An incremental run reads the
change feeds since the active release, gives a job to every dimension whose sources changed,
rebuilds the facts of the affected orders and gates those. The dimension jobs run in a thread pool,
and a run can be killed anywhere or raise in the middle, so the state it leaves behind has the
tables of any subset of the jobs written (`GoldRun.finished`).

Left out are the checks that a run has the tables, columns and versions it needs, which never fail
on tables written by the builder itself.
-/

namespace LakehousePipeline

open TableLog

/-! ### The state -/

/-- `GoldRelease`. -/
structure GoldRelease where
  /-- `silver_versions`: the Silver versions the release has processed. -/
  silverVersions : SilverTable → ℕ
  /-- `gold_versions`: the version of each Gold table a reader of the release reads. -/
  goldVersions : GoldTable → ℕ

/-- The Gold layer. -/
structure GoldState where
  /-- The Delta logs of the Gold tables. -/
  tables : (t : GoldTable) → List (List (GoldRow t))
  /-- `last_processed_history_version` of `dim_customer` in `gold_scd2_checkpoint`. -/
  checkpoint : Option ℕ
  /-- The values the release property has had, the active one last. -/
  releases : List GoldRelease

namespace GoldState

/-- No table has been written. -/
def empty : GoldState where
  tables _ := []
  checkpoint := none
  releases := []

variable (s : GoldState)

/-- The latest rows of all tables, published or not. -/
def latest : GoldSnapshot :=
  fun t ↦ latestRows (s.tables t)

/-- The rows a reader of a release sees (`with_gold_versions`). -/
def view (release : GoldRelease) : GoldSnapshot :=
  fun t ↦ rowsAt (s.tables t) (release.goldVersions t)

/-- `GoldReleaseStore.latest`. -/
def activeRelease : Option GoldRelease :=
  s.releases.getLast?

/-- What readers see: nothing before the first release. -/
def published : GoldSnapshot :=
  fun t ↦ (s.activeRelease.map fun release ↦ s.view release t).getD []

end GoldState

/-! ### Jobs -/

/-- What a run does to one table. -/
inductive TableJob (t : GoldTable)
  /-- Nothing; the table counts as changed all the same. -/
  | skip
  /-- `append_new_rows`. -/
  | append (members : List (GoldRow t))
  /-- `upsert_table`; Gold has no soft deletes. -/
  | upsert (rows : List (GoldRow t)) (options : UpsertOptions (GoldKey t))
    (hpreserve : options.preserveTargetOnSoftDelete = false)
  /-- `write_table`. -/
  | overwrite (rows : List (GoldRow t))
  /-- "Gold SCD2 checkpoint is missing". -/
  | missingCheckpoint

namespace TableJob

variable {t : GoldTable}

/-- The rows a job builds. -/
def built : TableJob t → List (GoldRow t)
  | append members => members
  | upsert rows _ _ => rows
  | overwrite rows => rows
  | skip | missingCheckpoint => []

/-- The log of the table after the job, `none` when the job raises. -/
def perform (log : List (List (GoldRow t))) : TableJob t → Option (List (List (GoldRow t)))
  | skip => some log
  | append members => (appendNewRows (goldKey t) (latestRows log) members).map (commit log)
  | upsert rows options _ =>
    (upsertTable (keyedColumns (goldKey t)) options
      (if log.isEmpty then none else some (latestRows log)) rows).map fun result ↦
        if result.written then commit log result.rows else log
  | overwrite rows => some (commit log rows)
  | missingCheckpoint => none

end TableJob

/-- The jobs of a run; a table without a job is left alone. -/
abbrev GoldJobs := (t : GoldTable) → Option (TableJob t)

/-- The log of a table after its job. -/
def GoldJobs.perform (jobs : GoldJobs) (s : GoldState) (t : GoldTable) :
    Option (List (List (GoldRow t))) :=
  match jobs t with
  | some job => job.perform (s.tables t)
  | none => some (s.tables t)

/-- The rows the jobs build. -/
def GoldJobs.built (jobs : GoldJobs) : GoldSnapshot :=
  fun t ↦ ((jobs t).map TableJob.built).getD []

/-- A job that leaves the checkpoint at the history version it has processed. -/
def TableJob.movesCheckpoint : TableJob .dimCustomer → Bool
  | skip | missingCheckpoint => false
  | append _ | upsert _ _ _ | overwrite _ => true

/-! ### The jobs of a full run -/

/-- The dimensions a full run builds. -/
def fullDimensions (fns : SparkFunctions) (lake : SilverLake) : (t : GoldTable) → List (GoldRow t)
  | .dimCustomer => buildDimCustomer fns true (lake.history .appUsers)
  | .dimDate => buildDimDate fns (lake.rows .orders)
  | .dimTime => buildDimTime (lake.rows .orders)
  | .dimLocation => buildDimLocation fns (lake.rows .userAddresses) (lake.rows .orders)
  | .dimShop => buildDimShop fns true (lake.history .shops)
  | .dimCategory => buildDimCategory fns true (lake.history .categories)
  | .dimProduct =>
    buildDimProduct fns true (lake.history .products) (lake.history .productVariants)
  | .dimPromotion => buildDimPromotion fns (lake.rows .orderVouchers) (lake.rows .vouchers)
  | .dimPayment => buildDimPayment fns (lake.rows .payments)
  | .dimShipping => buildDimShipping fns (lake.rows .shipments)
  | .factSales => []

/-- How a full run writes a table: SCD2 dimensions are overwritten, the others too when the run
replaces, and merged with `delete_not_matched_by_source` otherwise. -/
def fullJob (replace : Bool) (t : GoldTable) (rows : List (GoldRow t)) : TableJob t :=
  if replace || t ∈ scd2Dimensions then .overwrite rows
  else .upsert rows { UpsertOptions.default (GoldKey t) with deleteNotMatchedBySource := true } rfl

/-- The dimension jobs of a full run. -/
def fullJobs (fns : SparkFunctions) (lake : SilverLake) (replace : Bool) : GoldJobs :=
  fun t ↦ if t = .factSales then none else some (fullJob replace t (fullDimensions fns lake t))

/-! ### The jobs of an incremental run -/

section Replay

variable {A κ V : Type}

/-- The surrogate keys of the affected members that the replay no longer gives. -/
def staleKeys (memberId : Scd2Row A κ V → Option ℤ) (existing replayed : List (Scd2Row A κ V))
    (affectedIds : List ℤ) : List ℤ :=
  ((filterIds memberId affectedIds existing).map fun v ↦ v.surrogateKey).filter fun k ↦
    k ∉ replayed.map fun v ↦ v.surrogateKey

end Replay

section Incremental

variable (fns : SparkFunctions) (lake : SilverLake) (changes : SilverChanges)

/-- `update_customer`: the customers with history since the checkpoint are replayed. -/
def customerJob (checkpoint : Option ℕ) (existing : List CustomerRow) : TableJob .dimCustomer :=
  match checkpoint with
  | none => .missingCheckpoint
  | some processed =>
    if lake.historyVersion .appUsers ≤ processed then .skip
    else
      let ids := (lake.historySince .appUsers processed).map fun row ↦ row.key
      let replayed := buildDimCustomer fns false
        (filterIds (fun row ↦ some row.key) ids (lake.history .appUsers))
      .upsert replayed (scopeOptions (staleKeys (fun v ↦ v.sourceKey) existing replayed ids) true)
        rfl

/-- `update_shop`: the shops in the feed are replayed. -/
def shopJob (existing : List ShopRow) : TableJob .dimShop :=
  let ids := changedKeys changes .shops
  let replayed := buildDimShop fns false
    (filterIds (fun row ↦ some row.key) ids (lake.history .shops))
  .upsert replayed (scopeOptions (staleKeys (fun v ↦ v.sourceKey) existing replayed ids) true) rfl

/-- The categories `update_category` writes: the changed ones and their children. -/
def affectedCategoryIds (history : List (HistoryRow ℤ CategoryColumns)) (changedIds : List ℤ) :
    List ℤ :=
  changedIds ++ (filterIds (fun row ↦ row.payload.parentCategoryId) changedIds history).map
    fun row ↦ row.key

/-- The categories `update_category` reads: the affected ones and their parents. -/
def categoryScopeIds (history : List (HistoryRow ℤ CategoryColumns)) (changedIds : List ℤ) :
    List ℤ :=
  let affectedIds := affectedCategoryIds history changedIds
  affectedIds ++ (filterIds (fun row ↦ some row.key) affectedIds history).filterMap
    fun row ↦ row.payload.parentCategoryId

/-- The replay of the categories in scope. -/
def replayedCategories (history : List (HistoryRow ℤ CategoryColumns)) (changedIds : List ℤ) :
    List CategoryRow :=
  buildDimCategory fns false
    (filterIds (fun row ↦ some row.key) (categoryScopeIds history changedIds) history)

/-- `update_category`. -/
def categoryJob (existing : List CategoryRow) : TableJob .dimCategory :=
  let history := lake.history .categories
  let changedIds := changedKeys changes .categories
  let replayed := replayedCategories fns history changedIds
  .upsert replayed (scopeOptions
    (staleKeys (fun v ↦ v.sourceKey) existing replayed
      (affectedCategoryIds history changedIds)) true)
    rfl

/-- `update_product`: the variants of the affected products are replayed. -/
def productJob (existing : List ProductRow) : TableJob .dimProduct :=
  let ids := affectedProductIds changes
  let replayed := buildDimProduct fns false
    (filterIds (fun row ↦ some row.key) ids (lake.history .products))
    (filterIds (fun row ↦ row.payload.productId) ids (lake.history .productVariants))
  .upsert replayed
    (scopeOptions (staleKeys (fun v ↦ v.attributes.sourceProductId) existing replayed ids) true) rfl

/-- `update_promotion`: the promotions of the affected orders. -/
def promotionJob : TableJob .dimPromotion :=
  let scope := factScope lake.factSources (affectedOrderIds changes (lake.rows .orderVouchers))
  .upsert ((buildDimPromotion fns scope.orderVouchers scope.vouchers).filter fun p ↦
    p.promotionKey ≠ 0) (UpsertOptions.default ℤ) rfl

/-- `_append_dimension_members`. -/
def appendJob (t : GoldTable) (members : List (GoldRow t)) : TableJob t :=
  .append (members.filter fun row ↦ memberKey t row ≠ 0)

/-- The current rows of the keys in the feed of a table. -/
def changedRows (t : SilverTable) : List (BusinessRow ℤ (SilverColumns t)) :=
  filterIds (fun row ↦ some row.key) (changedKeys changes t) (lake.rows t)

/-- The dimension jobs of an incremental run. -/
def incrementalJobs (checkpoint : Option ℕ) (gold : GoldSnapshot) : GoldJobs
  | .dimCustomer =>
    if (changes .appUsers).isSome then some (customerJob fns lake checkpoint (gold .dimCustomer))
    else none
  | .dimDate =>
    if (changes .orders).isSome then
      some (appendJob .dimDate (buildDimDate fns (changedRows lake changes .orders)))
    else none
  | .dimTime =>
    if (changes .orders).isSome then
      some (appendJob .dimTime (buildDimTime (changedRows lake changes .orders)))
    else none
  | .dimLocation =>
    if (changes .userAddresses).isSome || (changes .orders).isSome then
      some (appendJob .dimLocation (buildDimLocation fns (changedRows lake changes .userAddresses)
        (changedRows lake changes .orders)))
    else none
  | .dimShop =>
    if (changes .shops).isSome then some (shopJob fns lake changes (gold .dimShop)) else none
  | .dimCategory =>
    if (changes .categories).isSome then some (categoryJob fns lake changes (gold .dimCategory))
    else none
  | .dimProduct =>
    if (changes .products).isSome || (changes .productVariants).isSome then
      some (productJob fns lake changes (gold .dimProduct))
    else none
  | .dimPromotion =>
    if (changes .orderVouchers).isSome || (changes .vouchers).isSome then
      some (promotionJob fns lake changes)
    else none
  | .dimPayment =>
    if (changes .payments).isSome then
      some (appendJob .dimPayment (buildDimPayment fns (changedRows lake changes .payments)))
    else none
  | .dimShipping =>
    if (changes .shipments).isSome then
      some (appendJob .dimShipping (buildDimShipping fns (changedRows lake changes .shipments)))
    else none
  | .factSales => none

end Incremental

/-! ### Runs -/

/-- Where a run is killed. -/
inductive Interruption
  /-- While the dimensions are written. -/
  | dimensions
  /-- Before the facts are committed. -/
  | facts
  /-- Before the release is published. -/
  | publish
  deriving DecidableEq, Repr

/-- A run with all it depends on. -/
structure GoldRun where
  /-- Silver while the run reads it. -/
  lake : SilverLake
  /-- `full_rebuild`. -/
  fullRebuild : Bool
  /-- The versions of `silver_manifest`. -/
  silverManifest : Option (SilverTable → ℕ)
  /-- Where the run is killed, if it is. -/
  interruption : Option Interruption
  /-- The dimension jobs that have ended when the dimension step breaks off. -/
  finished : GoldTable → Bool
  /-- Whether the customer job had written its checkpoint too. -/
  checkpointed : Bool

/-- How a run ends. -/
inductive GoldOutcome
  /-- A release was published: the tables the run changed, and the rows it built for them. -/
  | published (changed : GoldTable → Bool) (built : GoldSnapshot)
  /-- Gold has already processed the Silver versions. -/
  | upToDate
  /-- A gate raised. -/
  | rejected (error : GoldQualityError)
  /-- The run raised otherwise, or was killed. -/
  | failed

/-- A release was published. -/
def GoldOutcome.publishes : GoldOutcome → Bool
  | published _ _ => true
  | upToDate | rejected _ | failed => false

/-- A release was published by a run that did not change the facts. -/
def GoldOutcome.keepsFacts : GoldOutcome → Bool
  | published changed _ => !changed .factSales
  | upToDate | rejected _ | failed => false

/-- The state after the finished jobs. -/
def GoldState.afterJobs (s : GoldState) (lake : SilverLake) (jobs : GoldJobs)
    (finished : GoldTable → Bool) (checkpointed : Bool) : GoldState :=
  { s with
    tables := fun t ↦ if finished t then (jobs.perform s t).getD (s.tables t) else s.tables t
    checkpoint :=
      if finished .dimCustomer && checkpointed && (jobs.perform s .dimCustomer).isSome &&
          (jobs .dimCustomer).any TableJob.movesCheckpoint
      then some (lake.historyVersion .appUsers) else s.checkpoint }

/-- Whether the dimension step ends: no job raises and nothing kills the run. -/
def GoldRun.completesDimensions (run : GoldRun) (jobs : GoldJobs) (s : GoldState) : Bool :=
  run.interruption ≠ some .dimensions && goldTables.all fun t ↦ (jobs.perform s t).isSome

/-- The state after all jobs. -/
def GoldRun.dimensionState (run : GoldRun) (jobs : GoldJobs) (s : GoldState) : GoldState :=
  s.afterJobs run.lake jobs (fun _ ↦ true) true

/-- The state after the dimension step. -/
def GoldRun.afterDimensions (run : GoldRun) (jobs : GoldJobs) (s : GoldState) : GoldState :=
  if run.completesDimensions jobs s then run.dimensionState jobs s
  else s.afterJobs run.lake jobs run.finished run.checkpointed

/-- A new log of `fact_sales`. -/
def GoldState.withFacts (s : GoldState) (log : List (List (GoldRow .factSales))) : GoldState :=
  { s with tables := Function.update s.tables .factSales log }

/-- The state after the merge of the facts. -/
def GoldState.withMerged (s : GoldState) (result : UpsertResult FactRow) : GoldState :=
  if result.written then s.withFacts (commit (s.tables .factSales) result.rows) else s

/-- `_publish` and `GoldReleaseStore.publish`: the latest versions of the changed tables and the old
pins of the others; the property is one more commit of `fact_sales`, so its pin moves by one. -/
def GoldState.publish (s : GoldState) (silverVersions : SilverTable → ℕ)
    (changed : GoldTable → Bool) (previous : GoldTable → ℕ) : GoldState :=
  let committed : GoldTable → ℕ := fun t ↦
    if changed t then latestVersion (s.tables t) else previous t
  { s.withFacts (commit (s.tables .factSales) (s.latest .factSales)) with
    releases := s.releases ++ [{
      silverVersions := silverVersions
      goldVersions := fun t ↦ if t = .factSales then committed t + 1 else committed t }] }

section Run

variable (fns : SparkFunctions) (hash : BusinessHash) (run : GoldRun) (s : GoldState)

/-- `_current_silver_versions`. -/
def currentSilverVersions : SilverTable → ℕ :=
  run.silverManifest.getD run.lake.version

/-- `_refresh_stale_propagated_versions`: a manifest behind the active release is read again. -/
def refreshedVersions (previous : SilverTable → ℕ) : SilverTable → ℕ :=
  if run.silverManifest.isSome && silverTables.any fun t ↦ currentSilverVersions run t < previous t
  then run.lake.version else currentSilverVersions run

/-- The feeds of the tables that moved since the active release, without those that move ingestion
metadata only. -/
def changesSince (previous : SilverTable → ℕ) : SilverChanges :=
  let current := refreshedVersions run previous
  substantiveChanges hash fun t ↦
    if previous t < current t then some (run.lake.readChanges t (previous t + 1) (current t))
    else none

/-- `_run_full`, and the publication. -/
def runFull : GoldState × GoldOutcome :=
  let jobs := fullJobs fns run.lake run.fullRebuild
  let s₁ := run.afterDimensions jobs s
  if !run.completesDimensions jobs s || run.interruption = some .facts then (s₁, .failed)
  else
    let facts := buildFactSales fns run.lake.factSources s₁.latest.factDimensions
    match (fullJob run.fullRebuild .factSales facts).perform (s₁.tables .factSales) with
    | none => (s₁, .failed)
    | some log =>
      let s₂ := s₁.withFacts log
      match qualityRun s₂.latest (run.lake.rows .orders) (run.lake.rows .orderItems) with
      | .error e => (s₂, .rejected e)
      | .ok () =>
        if run.interruption = some .publish then (s₂, .failed)
        else
          (s₂.publish (currentSilverVersions run) (fun _ ↦ true) fun _ ↦ 0,
            .published (fun _ ↦ true) (jobs.built.withFacts facts))

/-- The dimension jobs of an incremental run. -/
def GoldRun.jobs (changes : SilverChanges) : GoldJobs :=
  incrementalJobs fns run.lake changes s.checkpoint s.latest

/-- The orders an incremental run rebuilds. -/
def GoldRun.orderIds (changes : SilverChanges) : List ℤ :=
  affectedOrderIds changes (run.lake.rows .orderVouchers)

/-- `_run_incremental`, and the publication. -/
def runIncremental (previous : GoldRelease) (changes : SilverChanges) : GoldState × GoldOutcome :=
  let jobs := run.jobs fns s changes
  let orderIds := run.orderIds changes
  let s₁ := run.afterDimensions jobs s
  if !run.completesDimensions jobs s then (s₁, .failed)
  else
    match validateScd2 s₁.latest (scd2Dimensions.filter fun t ↦ (jobs t).isSome) with
    | .error e => (s₁, .rejected e)
    | .ok () =>
      match incrementalFacts fns s₁.latest run.lake.factSources orderIds with
      | .error e => (s₁, .rejected e)
      | .ok none => (s₁, .failed)
      | .ok (some result) =>
        if run.interruption = some .facts then (s₁, .failed)
        else
          let s₂ := s₁.withMerged result
          if run.interruption = some .publish then (s₂, .failed)
          else
            let changed : GoldTable → Bool := fun t ↦
              (jobs t).isSome || (t = .factSales && !orderIds.isEmpty)
            let facts := rebuiltFacts fns run.lake.factSources s₁.latest.factDimensions orderIds
            (s₂.publish (refreshedVersions run previous.silverVersions) changed
                previous.goldVersions,
              .published changed (jobs.built.withFacts facts))

/-- `run`. -/
def runGold : GoldState × GoldOutcome :=
  match s.activeRelease with
  | none => runFull fns run s
  | some previous =>
    if run.fullRebuild then runFull fns run s
    else
      let current := refreshedVersions run previous.silverVersions
      let changes := changesSince hash run previous.silverVersions
      if silverTables.any fun t ↦ current t < previous.silverVersions t then (s, .failed)
      else if silverTables.all fun t ↦ current t ≤ previous.silverVersions t then (s, .upToDate)
      else if silverTables.all fun t ↦ (changes t).isNone then
        if run.interruption.isSome then (s, .failed)
        else
          (s.publish current (fun _ ↦ false) previous.goldVersions,
            .published (fun _ ↦ false) fun _ ↦ [])
      else runIncremental fns run s previous changes

end Run

/-- Runs one after the other. -/
def runGolds (fns : SparkFunctions) (hash : BusinessHash) (s : GoldState) (runs : List GoldRun) :
    GoldState :=
  runs.foldl (fun s run ↦ (runGold fns hash run s).1) s

/-! ### A small lake -/

/-- A history row of a Batch event. -/
def smallHistory {P : Type} (id : Char) (key : ℤ) (payload : P) (eventTime : Timestamp) :
    HistoryRow ℤ P where
  key := key
  createdAt := 10
  payload := payload
  operation := .update
  eventOccurredAt := some eventTime
  historyEventId := [id]
  ingestionMode := .batch
  order := { OrderFields.null with ingestionPriority := some 1 }

/-- The first commit of a table. -/
def smallCommit {P : Type} (rows : List (SilverRow ℤ P)) : SilverCommit P where
  rows := rows
  feed := rows.map fun row ↦ ⟨.insert, row⟩

def smallUser : UserColumns := ⟨none, none, none, none, none, none, none, none, none⟩

def smallShop (name : Char) : ShopColumns := ⟨none, some [name], none, none, none⟩

def smallCategory : CategoryColumns := ⟨none, some ['c'], none, none, none⟩

def smallProduct (categoryId : ℤ) : ProductColumns :=
  ⟨none, some 7, some categoryId, none, none, none, none, none, none, none, none, none⟩

def smallVariant : VariantColumns :=
  ⟨none, some 20, none, none, none, none, none, none, none, none, none, none, none, none, none⟩

/-- A row of `shops` or `products`, created at 10, as Silver stores it. -/
def smallRow {P : Type} (key : ℤ) (payload : P) : SilverRow ℤ P :=
  storedRow ⟨key, 10, payload⟩

/-- One order of customer 5 at time 100, for variant 21 of product 20 in shop 7, with the given logs
of shops and products after the first commit. -/
def smallLake (shops : List (SilverCommit ShopColumns))
    (shopHistory : List (List (HistoryRow ℤ ShopColumns)))
    (products : List (SilverCommit ProductColumns))
    (productHistory : List (List (HistoryRow ℤ ProductColumns))) : SilverLake where
  tables
    | .appUsers => [smallCommit [smallRow 5 smallUser]]
    | .shops => smallCommit [smallRow 7 (smallShop 'a')] :: shops
    | .categories => [smallCommit [smallRow 40 smallCategory]]
    | .products => smallCommit [smallRow 20 (smallProduct 40)] :: products
    | .productVariants => [smallCommit [smallRow 21 smallVariant]]
    | .orders => [smallCommit [storedRow (smallOrder 1 333 50 20 20)]]
    | .orderItems => [smallCommit [storedRow (smallItem 1 11 21 1 333 20 20)]]
    | .userAddresses | .vouchers | .orderVouchers | .payments | .shipments => [smallCommit []]
  histories
    | .appUsers => [[smallHistory 'u' 5 smallUser 20]]
    | .shops => [smallHistory 's' 7 (smallShop 'a') 20] :: shopHistory
    | .categories => [[smallHistory 'c' 40 smallCategory 20]]
    | .products => [smallHistory 'p' 20 (smallProduct 40) 20] :: productHistory
    | .productVariants => [[smallHistory 'v' 21 smallVariant 20]]
    | .userAddresses | .vouchers | .orders | .orderItems | .orderVouchers | .payments
    | .shipments => []

/-- A hash of the columns in which rows of a small lake differ. -/
def smallHash : BusinessHash
  | .shops => fun row isDeleted ↦
    (row : BusinessRow ℤ ShopColumns).payload.shopName.getD [] ++
      SparkFunctions.plain.castBool isDeleted
  | .products => fun row isDeleted ↦
    SparkFunctions.plain.castInt ((row : BusinessRow ℤ ProductColumns).payload.categoryId.getD 0) ++
      SparkFunctions.plain.castBool isDeleted
  | _ => fun _ isDeleted ↦ SparkFunctions.plain.castBool isDeleted

/-- A run that nothing kills. -/
def smallRun (lake : SilverLake) (fullRebuild : Bool) : GoldRun where
  lake := lake
  fullRebuild := fullRebuild
  silverManifest := none
  interruption := none
  finished _ := false
  checkpointed := false

end LakehousePipeline
