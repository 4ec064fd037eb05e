import LakehousePipeline.Control.GoldReconcileQueue
import LakehousePipeline.Gold.Progress
import LakehousePipeline.Streaming.Readiness

/-!
# CDC micro-batches and Gold cycles

A micro-batch merges its tables into Silver and enqueues a request; a Gold cycle scans the pending
requests, brings Gold up to date and completes what it has scanned. Both hold the writer lock, as do
the stages of batch runs, and each of their commits is an action of its own, so that a crash can
come between any two: it releases the lock and leaves everything else. The lock itself is taken for
granted (at most one holder).

A retried micro-batch merges again, and Delta skips the tables it has committed before, by the
transaction version. `cdcCommits` is that memory, and it also remembers which Silver version each
commit got. So a request that is in the queue has no commit left to make, and Silver at the time of
a cycle has all its versions; a release never loses them again (`queuePublication_sound`).

## Three promises and what carries them

* *A micro-batch that has returned has its request in the queue.* The enqueue comes after the last
  merge, and a retry begins again with the merges.
* *The active release includes every request with a published row.* `Included` compares the release
  with the versions the micro-batch has committed (`cdcCommits`). A release only moves forward, as a
  Gold run starts from the versions of the one before, so what is included stays included; the
  exception is a forced full rebuild, which is left out.
* *What a cycle completes is included before it completes it.* A cycle holds the lock from its scan
  on. Between its Gold run and its completion no micro-batch can enqueue, so the keys it has scanned
  are of requests whose commits the run has seen.

`QueueSound` is what holds whoever has the lock, `HolderSound` what holds of the holder at its place
in the program. Each action is in one of three groups, and has one lemma for each group: it changes
the lakehouse and not the queue, it changes the queue, or it only moves the holder on.
-/

namespace LakehousePipeline

/-! ### The scope of a request -/

/-- `_ORDER_SCOPED_GOLD_TABLES`. -/
def orderScopedGoldTables : List SilverTable :=
  [.orders, .orderItems, .orderVouchers, .payments, .shipments]

/-- `_collect_affected_order_ids` from the `order_id` columns, in the order Spark returns them; none
when there are too many. -/
def collectAffectedOrderIds (maxOrderIds : ℕ) :
    List (List (Option ℤ)) → List ℤ → Option (List ℤ)
  | [], affected => some affected
  | column :: columns, affected =>
    let remaining := maxOrderIds + 1 - affected.length
    let affected := affected ∪ ((column.filterMap fun orderId ↦ orderId).dedup.take remaining)
    if maxOrderIds < affected.length then none
    else collectAffectedOrderIds maxOrderIds columns affected

/-- `_gold_scope`: the affected orders and whether they have to be ready. -/
def goldScope (maxOrderIds : ℕ) (orderIdColumns : List (List (Option ℤ))) :
    Option (List ℤ) × Bool :=
  if orderIdColumns.isEmpty then (some [], false)
  else (collectAffectedOrderIds maxOrderIds orderIdColumns [], true)

/-- What `_run_gold_locked` returns. -/
inductive ReconcileStatus
  | published
  | qualitySkipped
  deriving DecidableEq, Repr

/-- `_run_gold_locked` with both flags off, none when it raises. A run without anything to do counts
as published. -/
def reconcileStatus : GoldOutcome → Option ReconcileStatus
  | .published _ _ | .upToDate => some .published
  | .rejected _ => some .qualitySkipped
  | .failed => none

/-- A Gold run counts as published if it has published or found nothing to do. -/
theorem reconcileStatus_eq_published {outcome : GoldOutcome} :
    reconcileStatus outcome = some .published ↔
      outcome.publishes = true ∨ outcome = .upToDate := by
  cases outcome with
  | published => exact iff_of_true rfl (Or.inl rfl)
  | upToDate => exact iff_of_true rfl (Or.inr rfl)
  | rejected => simp [reconcileStatus, GoldOutcome.publishes]
  | failed => simp [reconcileStatus, GoldOutcome.publishes]

/-! ### Writers -/

/-- The transaction id of the merges of a stream into a table, by its parts. -/
structure CdcAppId where
  queryName : Text
  checkpointVersion : Text
  table : SilverTable
  deriving DecidableEq

/-- `transaction_app_id` of the merge of a micro-batch into a table. -/
def BatchKey.cdcAppId (requestId : BatchKey) (t : SilverTable) : CdcAppId :=
  ⟨requestId.queryName, requestId.checkpointVersion, t⟩

/-- A commit of a micro-batch. -/
structure CdcCommit where
  /-- The micro-batch. -/
  requestId : BatchKey
  /-- The Silver table. -/
  table : SilverTable
  /-- The version of the commit. -/
  version : ℕ

/-- Where a Gold cycle is that holds the lock. -/
inductive CyclePhase
  | started
  /-- It has scanned the queue, and the orders in scope are ready. -/
  | ready (pending : PendingGoldScope)
  /-- Its Gold run has ended as published. -/
  | built (keys : List (BatchKey × ScopeKey))

/-- Who holds the writer lock. -/
inductive LockHolder
  /-- A micro-batch: the tables it has merged, and whether it has enqueued its request. -/
  | microBatch (requestId : BatchKey) (merged : List SilverTable) (enqueued : Bool)
  /-- A Gold cycle. -/
  | cycle (phase : CyclePhase)
  /-- The Silver stage or the Gold stage of a batch run. -/
  | batch

/-- A lakehouse with its CDC stream. -/
structure UnifiedLakehouse (W : Type) extends Lakehouse W where
  /-- `gold_reconcile_queue`, once it exists. -/
  queue : Option (List QueueRow)
  /-- The commits of the micro-batches and the transaction versions in the Delta logs. -/
  cdcCommits : TxnTable CdcCommit CdcAppId
  /-- The holder of the writer lock. -/
  holder : Option LockHolder
  /-- The micro-batches with valid rows whose `process_batch` has returned. -/
  returned : List BatchKey

/-- What happens to it. -/
inductive UnifiedAction (W : Type)
  /-- A micro-batch, or a retry of one, takes the lock. -/
  | beginMicroBatch (requestId : BatchKey)
  /-- `append_change_history` of the micro-batch. -/
  | appendHistory (t : SilverTable) (rows : List (HistoryRow ℤ (SilverColumns t)))
  /-- `_merge_table` of the micro-batch. -/
  | mergeTable (t : SilverTable) (c : SilverCommit (SilverColumns t))
  /-- The micro-batch enqueues its request: the `order_id` columns of its tables. -/
  | enqueue (orderIds : SilverTable → List (Option ℤ))
  /-- `process_batch` returns. -/
  | returnBatch
  /-- A Gold cycle takes the lock. -/
  | beginCycle
  /-- It scans the queue: the pending rows in the order Spark returns them. -/
  | scan (rows : List QueueRow)
  /-- It runs Gold: what becomes of the run. -/
  | reconcile (stage : GoldStage W)
  /-- It completes the rows it has scanned. -/
  | complete
  /-- A stage of a batch run takes the lock. -/
  | beginBatch
  /-- It does something. -/
  | batch (action : LakehouseAction W)
  /-- It releases the lock. -/
  | endBatch
  /-- A maintenance commit, which takes no lock. -/
  | maintain (t : SilverTable) (c : SilverCommit (SilverColumns t))
  /-- The holder of the lock is killed or raises. -/
  | crash

/-- A batch run with a forced full rebuild of Gold. -/
def UnifiedAction.isFullRebuild {W : Type} : UnifiedAction W → Bool
  | .batch action => action.isFullRebuild
  | _ => false

namespace UnifiedLakehouse

variable {W : Type} [DecidableEq W]

/-- Nothing has been written. -/
def empty : UnifiedLakehouse W :=
  { Lakehouse.empty with queue := none, cdcCommits := .empty, holder := none, returned := [] }

/-- The rows of the queue. -/
def queueRows (world : UnifiedLakehouse W) : List QueueRow :=
  world.queue.getD []

/-- `_source_fact_ready_for_gold` on the physical rows of Silver. -/
def ready (world : UnifiedLakehouse W) (pending : PendingGoldScope) : Bool :=
  !pending.requiresFactReadiness || sourceFactReadyForGold (world.silver.currentRows .orders)
    (world.silver.currentRows .orderItems) pending.affectedOrderIds

section Step

variable (fns : SparkFunctions) (hash : BusinessHash) (maxOrderIds : ℕ)
  (tables : BatchKey → List SilverTable)

/-- One action; `tables` has the tables of each micro-batch that have valid rows. -/
def step (world : UnifiedLakehouse W) : UnifiedAction W → Option (UnifiedLakehouse W)
  | .beginMicroBatch requestId =>
    if world.holder.isNone && !(tables requestId).isEmpty then
      some { world with holder := some (.microBatch requestId [] false) }
    else none
  | .appendHistory t rows =>
    match world.holder with
    | some (.microBatch requestId merged false) =>
      if t ∈ tables requestId ∧ t ∉ merged then
        (world.toLakehouse.step fns hash (.appendHistory t rows)).map fun after ↦
          { world with toLakehouse := after }
      else none
    | _ => none
  | .mergeTable t c =>
    match world.holder with
    | some (.microBatch requestId merged false) =>
      if t ∈ tables requestId ∧ t ∉ merged ∧ c.pipeline = some .cdcToSilver then
        -- a merge with a transaction version that is in the log is no commit
        if world.cdcCommits.covers (requestId.cdcAppId t) requestId.batchId then
          some { world with holder := some (.microBatch requestId (t :: merged) false) }
        else
          (world.toLakehouse.step fns hash (.commit t c)).map fun after ↦
            { world with
              toLakehouse := after
              cdcCommits := world.cdcCommits.append (requestId.cdcAppId t) requestId.batchId
                [⟨requestId, t, (world.silver.tables t).length⟩]
              holder := some (.microBatch requestId (t :: merged) false) }
      else none
    | _ => none
  | .enqueue orderIds =>
    match world.holder with
    | some (.microBatch requestId merged false) =>
      if ∀ t ∈ tables requestId, t ∈ merged then
        let scope := goldScope maxOrderIds
          (((tables requestId).filter fun t ↦ t ∈ orderScopedGoldTables).map orderIds)
        (LakehousePipeline.enqueue world.queue requestId scope.1 scope.2).map fun queue ↦
          { world with
            queue := some queue
            holder := some (.microBatch requestId merged true) }
      else none
    | _ => none
  | .returnBatch =>
    match world.holder with
    | some (.microBatch requestId _ true) =>
      some { world with holder := none, returned := requestId :: world.returned }
    | _ => none
  | .beginCycle =>
    if world.holder.isNone then some { world with holder := some (.cycle .started) } else none
  | .scan rows =>
    match world.holder with
    | some (.cycle .started) =>
      if rows.Perm (pendingRows world.queue) then
        -- without a pending row, or with orders that are not ready, the cycle is over
        some { world with
          holder :=
            ((pendingScope maxOrderIds (rows.take (maxOrderIds + 1))).filter world.ready).map
            fun pending ↦ .cycle (.ready pending) }
      else none
    | _ => none
  | .reconcile stage =>
    match world.holder with
    | some (.cycle (.ready pending)) =>
      let stage : GoldStage W := { stage with writer := none, fullRebuild := false }
      (world.goldRun stage).bind fun run ↦
        (world.toLakehouse.step fns hash (.goldStage stage)).map fun after ↦
          { world with
            toLakehouse := after
            holder :=
              if reconcileStatus (runGold fns hash run world.gold).2 = some .published then
                some (.cycle (.built pending.keys))
              else none }
    | _ => none
  | .complete =>
    match world.holder with
    | some (.cycle (.built keys)) =>
      (LakehousePipeline.complete world.queueRows keys).map fun queue ↦
        { world with queue := some queue, holder := none }
    | _ => none
  | .beginBatch =>
    if world.holder.isNone then some { world with holder := some .batch } else none
  | .batch action =>
    match world.holder with
    | some .batch =>
      (world.toLakehouse.step fns hash action).map fun after ↦ { world with toLakehouse := after }
    | _ => none
  | .endBatch =>
    match world.holder with
    | some .batch => some { world with holder := none }
    | _ => none
  | .maintain t c =>
    if c.pipeline = none then
      (world.toLakehouse.step fns hash (.commit t c)).map fun after ↦
        { world with toLakehouse := after }
    else none
  | .crash => some { world with holder := none }

end Step

/-! ### Requests whose commits are in the release -/

/-- The active release is at or above every version that a micro-batch has committed. -/
def Included (world : UnifiedLakehouse W) (requestId : BatchKey) : Prop :=
  ∃ release, world.gold.activeRelease = some release ∧
    ∀ c ∈ world.cdcCommits.rows, c.requestId = requestId →
      c.version ≤ release.silverVersions c.table

/-- A micro-batch has nothing left to commit to a table. -/
def Committed (world : UnifiedLakehouse W) (requestId : BatchKey) (t : SilverTable) : Prop :=
  world.cdcCommits.covers (requestId.cdcAppId t) requestId.batchId = true

/-- What holds whoever has the lock. -/
structure QueueSound (tables : BatchKey → List SilverTable) (world : UnifiedLakehouse W) :
    Prop where
  behind : world.toLakehouse.BehindSilver
  versions : ∀ c ∈ world.cdcCommits.rows, c.version ≤ world.silver.version c.table
  enqueued : ∀ row ∈ world.queueRows, ∀ t ∈ tables row.requestId, world.Committed row.requestId t
  published : ∀ row ∈ world.queueRows, row.status = .published → world.Included row.requestId
  returned : ∀ requestId ∈ world.returned, ∃ row ∈ world.queueRows, row.requestId = requestId

/-- What holds of the holder of the lock. -/
def HolderSound (world : UnifiedLakehouse W) : Option LockHolder → Prop
  | some (.microBatch requestId merged enqueued) =>
    (∀ t ∈ merged, world.Committed requestId t) ∧
      (enqueued = true → ∃ row ∈ world.queueRows, row.requestId = requestId)
  | some (.cycle (.built keys)) => ∀ key ∈ keys, world.Included key.1
  | some (.cycle .started) | some (.cycle (.ready _)) | some .batch | none => True

section Sound

variable {fns : SparkFunctions} {hash : BusinessHash} {maxOrderIds : ℕ}
  {tables : BatchKey → List SilverTable} {world world' : UnifiedLakehouse W} {after : Lakehouse W}

omit [DecidableEq W] in
/-- A release that is nowhere behind the one before includes what that one includes. -/
theorem Included.mono {requestId : BatchKey} (h : world.Included requestId)
    (hcommits : ∀ c ∈ world'.cdcCommits.rows, c.requestId = requestId → c ∈ world.cdcCommits.rows)
    (hrelease : ∀ r, world.gold.activeRelease = some r → ∃ r', world'.gold.activeRelease = some r' ∧
      ∀ t, r.silverVersions t ≤ r'.silverVersions t) : world'.Included requestId := by
  obtain ⟨r, hactive, hversions⟩ := h
  obtain ⟨r', hactive', hle⟩ := hrelease r hactive
  exact ⟨r', hactive', fun c hc hid ↦ (hversions c (hcommits c hc hid) hid).trans (hle c.table)⟩

/-- **An action on the lakehouse that is no full rebuild keeps the queue sound.** -/
theorem QueueSound.lakehouse (h : world.QueueSound tables) {action : LakehouseAction W}
    (hfull : action.isFullRebuild = false)
    (hstep : world.toLakehouse.step fns hash action = some after) :
    QueueSound tables { world with toLakehouse := after } ∧
      ∀ requestId, world.Included requestId →
        Included { world with toLakehouse := after } requestId := by
  obtain ⟨hextends, -⟩ := Lakehouse.step_spec hstep
  have hincluded : ∀ requestId, world.Included requestId →
      Included { world with toLakehouse := after } requestId := by
    intro requestId hincluded
    refine hincluded.mono (fun c hc _ ↦ hc) fun r hactive ↦ ?_
    obtain ⟨r', hactive', hread⟩ := Lakehouse.readOf_spec h.behind hfull hstep hactive
    exact ⟨r', hactive', fun t ↦ (hread t).1⟩
  refine ⟨⟨h.behind.step hstep, fun c hc ↦ ?_, h.enqueued, ?_, h.returned⟩, hincluded⟩
  · exact (h.versions c hc).trans (SilverLake.version_mono hextends c.table)
  · exact fun row hrow hstatus ↦ hincluded _ (h.published row hrow hstatus)

/-- **A merge keeps the queue sound**: a request that is enqueued has committed all its tables, so
the new commit is of a request that is not. -/
theorem QueueSound.mergeTable (h : world.QueueSound tables) {requestId : BatchKey} {t : SilverTable}
    {c : SilverCommit (SilverColumns t)} (ht : t ∈ tables requestId)
    (hc : c.pipeline = some .cdcToSilver) (hnew : ¬world.Committed requestId t)
    (hstep : world.toLakehouse.step fns hash (.commit t c) = some after)
    (holder : Option LockHolder) : QueueSound tables { world with
      toLakehouse := after
      cdcCommits := world.cdcCommits.append (requestId.cdcAppId t) requestId.batchId
        [⟨requestId, t, (world.silver.tables t).length⟩]
      holder := holder } := by
  obtain ⟨hsound, hincluded⟩ := h.lakehouse rfl hstep
  obtain rfl := Option.some.inj hstep
  have hrows : (world.cdcCommits.append (requestId.cdcAppId t) requestId.batchId
      [⟨requestId, t, (world.silver.tables t).length⟩]).rows =
        world.cdcCommits.rows ++ [⟨requestId, t, (world.silver.tables t).length⟩] := by
    rw [TxnTable.append_of_not_covers hnew]
  refine ⟨hsound.behind, fun commit hcommit ↦ ?_, fun row hrow t' ht' ↦ ?_,
    fun row hrow hstatus ↦ ?_, h.returned⟩
  · rw [hrows] at hcommit
    rcases List.mem_append.1 hcommit with hold | hlast
    · exact hsound.versions commit hold
    · rw [List.mem_singleton.1 hlast]
      exact (SilverLake.version_commit_self _ _ c (by rw [hc]; rfl)).ge
  · exact TxnTable.covers_append.2 (Or.inl (h.enqueued row hrow t' ht'))
  · refine (hincluded _ (h.published row hrow hstatus)).mono (fun commit hcommit hid ↦ ?_)
      fun r hactive ↦ ⟨r, hactive, fun _ ↦ le_rfl⟩
    rw [hrows] at hcommit
    rcases List.mem_append.1 hcommit with hold | hlast
    · exact hold
    · rw [List.mem_singleton.1 hlast] at hid
      have hid : requestId = row.requestId := hid
      refine absurd ?_ hnew
      rw [hid]
      exact h.enqueued row hrow t (hid ▸ ht)

omit [DecidableEq W] in
/-- **The enqueue keeps the queue sound**, once all tables are committed. -/
theorem QueueSound.enqueue (h : world.QueueSound tables) {requestId : BatchKey}
    (hmerged : ∀ t ∈ tables requestId, world.Committed requestId t)
    {affectedOrderIds : Option (List ℤ)} {requiresFactReadiness : Bool} {queue : List QueueRow}
    (hqueue : LakehousePipeline.enqueue world.queue requestId affectedOrderIds
      requiresFactReadiness = some queue) (holder : Option LockHolder) :
    QueueSound tables { world with queue := some queue, holder := holder } := by
  refine ⟨h.behind, h.versions, fun row hrow ↦ ?_, fun row hrow hstatus ↦ ?_, fun id hid ↦ ?_⟩
  · rcases mem_of_enqueue hqueue hrow with ⟨hid, -⟩ | hold
    · rw [hid]
      exact hmerged
    · exact h.enqueued row hold
  · rcases mem_of_enqueue hqueue hrow with ⟨-, hpending⟩ | hold
    · rw [hpending] at hstatus
      cases hstatus
    · exact h.published row hold hstatus
  · obtain ⟨row, hrow, rfl⟩ := h.returned id hid
    exact exists_of_enqueue_of_mem hqueue hrow

omit [DecidableEq W] in
/-- **The completion keeps the queue sound**, if the release includes what is completed. -/
theorem QueueSound.complete (h : world.QueueSound tables) {keys : List (BatchKey × ScopeKey)}
    (hkeys : ∀ key ∈ keys, world.Included key.1) {queue : List QueueRow}
    (hqueue : LakehousePipeline.complete world.queueRows keys = some queue)
    (holder : Option LockHolder) :
    QueueSound tables { world with queue := some queue, holder := holder } := by
  refine ⟨h.behind, h.versions, fun row hrow ↦ ?_, fun row hrow hstatus ↦ ?_, fun id hid ↦ ?_⟩
  · rcases mem_of_complete hqueue hrow with ⟨-, old, hold, hkey⟩ | hold
    · have hid : old.requestId = row.requestId := congrArg Prod.fst hkey
      rw [← hid]
      exact h.enqueued old hold
    · exact h.enqueued row hold
  · rcases mem_of_complete hqueue hrow with ⟨hkey, -⟩ | hold
    · exact hkeys row.key hkey
    · exact h.published row hold hstatus
  · obtain ⟨row, hrow, rfl⟩ := h.returned id hid
    exact exists_of_complete hqueue hrow

omit [DecidableEq W] in
/-- **A Gold run of a cycle that ends as published** leaves a release with all versions Silver
has. -/
theorem version_le_of_reconcile (h : world.BehindSilver) {stage : GoldStage W}
    (hwriter : stage.writer = none) {run : GoldRun} (hrun : world.goldRun stage = some run)
    (hstatus : reconcileStatus (runGold fns hash run world.gold).2 = some .published) :
    ∃ release, (runGold fns hash run world.gold).1.activeRelease = some release ∧
      ∀ t, world.silver.version t ≤ release.silverVersions t := by
  obtain ⟨hlake, -, -⟩ := Lakehouse.goldRun_spec h hrun
  have hmanifest : run.silverManifest = none := by
    rw [Lakehouse.goldRun, hwriter] at hrun
    rw [← Option.some.inj hrun]
  have hlive : ∀ previous, refreshedVersions run previous = run.lake.version := by
    intro previous
    rcases refreshedVersions_eq_or run previous with ⟨manifest, hm, -⟩ | hlive
    · cases hmanifest.symm.trans hm
    · exact hlive
  rcases reconcileStatus_eq_published.1 hstatus with hpublishes | huptodate
  · obtain ⟨release, hactive, ⟨-, hversions⟩ | ⟨previous, -, -, hversions⟩⟩ :=
      activeRelease_of_publishes hpublishes
    · refine ⟨release, hactive, fun t ↦ ?_⟩
      rw [hversions, currentSilverVersions, hmanifest, Option.getD_none, hlake]
    · refine ⟨release, hactive, fun t ↦ ?_⟩
      rw [hversions, hlive, hlake]
  · obtain ⟨release, hactive, hversions⟩ := activeRelease_of_upToDate huptodate
    refine ⟨release, hactive, fun t ↦ ?_⟩
    rw [← hlake, ← hlive release.silverVersions]
    exact hversions t

/-- **So it includes every micro-batch.** -/
theorem included_of_reconcile (h : world.QueueSound tables) {stage : GoldStage W}
    (hwriter : stage.writer = none) {run : GoldRun} (hrun : world.goldRun stage = some run)
    (hstep : world.toLakehouse.step fns hash (.goldStage stage) = some after)
    (hstatus : reconcileStatus (runGold fns hash run world.gold).2 = some .published)
    (requestId : BatchKey) : Included { world with toLakehouse := after } requestId := by
  obtain ⟨run', hrun', rfl⟩ := Option.map_eq_some_iff.1 hstep
  obtain rfl := Option.some.inj (hrun.symm.trans hrun')
  obtain ⟨release, hactive, hversions⟩ := version_le_of_reconcile h.behind hwriter hrun hstatus
  exact ⟨release, hactive, fun c hc _ ↦ (h.versions c hc).trans (hversions c.table)⟩

/-! ### Any order of actions -/

/-- The queue is sound, and so is the holder of the lock. -/
structure Sound (tables : BatchKey → List SilverTable) (world : UnifiedLakehouse W) : Prop where
  queue : world.QueueSound tables
  holder : world.HolderSound world.holder

omit [DecidableEq W] in
/-- Nothing is in the queue and nobody has the lock. -/
theorem sound_empty : (empty : UnifiedLakehouse W).Sound tables where
  queue :=
    { behind := Lakehouse.behindSilver_empty
      versions := fun _ hc ↦ absurd hc List.not_mem_nil
      enqueued := fun _ hrow ↦ absurd hrow List.not_mem_nil
      published := fun _ hrow ↦ absurd hrow List.not_mem_nil
      returned := fun _ hid ↦ absurd hid List.not_mem_nil }
  holder := trivial

omit [DecidableEq W] in
/-- A change of the holder keeps the queue sound. -/
theorem QueueSound.withHolder (h : world.QueueSound tables) (holder : Option LockHolder) :
    QueueSound tables { world with holder := holder } :=
  ⟨h.behind, h.versions, h.enqueued, h.published, h.returned⟩

/-- The actions on the lakehouse leave a sound holder sound. -/
theorem HolderSound.lakehouse (h : world.Sound tables) {action : LakehouseAction W}
    (hfull : action.isFullRebuild = false)
    (hstep : world.toLakehouse.step fns hash action = some after) :
    Sound tables { world with toLakehouse := after } := by
  obtain ⟨hqueue, hincluded⟩ := h.queue.lakehouse hfull hstep
  refine ⟨hqueue, ?_⟩
  have hholder := h.holder
  show HolderSound _ world.holder
  rcases hw : world.holder with - | (⟨id, merged, enqueued⟩ | (- | pending | keys) | -)
  · trivial
  · rw [hw] at hholder
    exact hholder
  · trivial
  · trivial
  · rw [hw] at hholder
    exact fun key hkey ↦ hincluded key.1 (hholder key hkey)
  · trivial

/-- **One action keeps the lakehouse sound**, if it is no forced full rebuild. -/
theorem Sound.step (h : world.Sound tables) {action : UnifiedAction W}
    (hfull : action.isFullRebuild = false)
    (hstep : world.step fns hash maxOrderIds tables action = some world') :
    world'.Sound tables := by
  have hholder := h.holder
  cases action with
  | beginMicroBatch requestId =>
    obtain ⟨-, hstep⟩ := Option.ite_none_right_eq_some.1 hstep
    obtain rfl := Option.some.inj hstep
    exact ⟨h.queue.withHolder _, fun _ ht ↦ absurd ht List.not_mem_nil, fun he ↦ by cases he⟩
  | appendHistory t rows =>
    rw [UnifiedLakehouse.step] at hstep
    split at hstep
    · obtain ⟨-, hstep⟩ := Option.ite_none_right_eq_some.1 hstep
      obtain ⟨after, hafter, rfl⟩ := Option.map_eq_some_iff.1 hstep
      exact HolderSound.lakehouse h rfl hafter
    · cases hstep
  | mergeTable t c =>
    rw [UnifiedLakehouse.step] at hstep
    split at hstep
    · rename_i requestId merged hw
      rw [hw] at hholder
      obtain ⟨⟨ht, -, hc⟩, hstep⟩ := Option.ite_none_right_eq_some.1 hstep
      split at hstep
      · -- a retried merge: Delta skips the batch id it has already recorded
        rename_i hcovers
        obtain rfl := Option.some.inj hstep
        refine ⟨h.queue.withHolder _, fun t' ht' ↦ ?_, fun he ↦ by cases he⟩
        rcases List.mem_cons.1 ht' with rfl | ht'
        · exact hcovers
        · exact hholder.1 t' ht'
      · -- the first attempt: its commit records the batch id of the table
        rename_i hcovers
        obtain ⟨after, hafter, rfl⟩ := Option.map_eq_some_iff.1 hstep
        refine ⟨h.queue.mergeTable ht hc hcovers hafter _, fun t' ht' ↦ ?_, fun he ↦ by cases he⟩
        rcases List.mem_cons.1 ht' with rfl | ht'
        · exact TxnTable.covers_append.2 (Or.inr ⟨rfl, le_rfl⟩)
        · exact TxnTable.covers_append.2 (Or.inl (hholder.1 t' ht'))
    · cases hstep
  | enqueue orderIds =>
    rw [UnifiedLakehouse.step] at hstep
    split at hstep
    · rename_i requestId merged hw
      rw [hw] at hholder
      obtain ⟨hall, hstep⟩ := Option.ite_none_right_eq_some.1 hstep
      obtain ⟨queue, hqueue, rfl⟩ := Option.map_eq_some_iff.1 hstep
      exact ⟨h.queue.enqueue (fun t ht ↦ hholder.1 t (hall t ht)) hqueue _, hholder.1,
        fun _ ↦ exists_of_enqueue hqueue⟩
    · cases hstep
  | returnBatch =>
    rw [UnifiedLakehouse.step] at hstep
    split at hstep
    · rename_i requestId merged hw
      rw [hw] at hholder
      obtain rfl := Option.some.inj hstep
      have hqueue := h.queue
      refine ⟨⟨hqueue.behind, hqueue.versions, hqueue.enqueued, hqueue.published, ?_⟩, trivial⟩
      -- what is returned now has been put on the queue before
      intro id hid
      rcases List.mem_cons.1 hid with rfl | hid
      · exact hholder.2 rfl
      · exact hqueue.returned id hid
    · cases hstep
  | beginCycle =>
    obtain ⟨-, hstep⟩ := Option.ite_none_right_eq_some.1 hstep
    obtain rfl := Option.some.inj hstep
    exact ⟨h.queue.withHolder _, trivial⟩
  | scan rows =>
    rw [UnifiedLakehouse.step] at hstep
    split at hstep
    · obtain ⟨-, hstep⟩ := Option.ite_none_right_eq_some.1 hstep
      obtain rfl := Option.some.inj hstep
      refine ⟨h.queue.withHolder _, ?_⟩
      show HolderSound _ (Option.map _ _)
      generalize Option.filter _ _ = pending
      cases pending with
      | none | some => trivial
    · cases hstep
  | reconcile stage =>
    rw [UnifiedLakehouse.step] at hstep
    split at hstep
    · rename_i pending hw
      obtain ⟨run, hrun, hstep⟩ := Option.bind_eq_some_iff.1 hstep
      obtain ⟨after, hafter, rfl⟩ := Option.map_eq_some_iff.1 hstep
      obtain ⟨hqueue, -⟩ := h.queue.lakehouse rfl hafter
      refine ⟨hqueue.withHolder _, ?_⟩
      show HolderSound _ (if _ then _ else _)
      split
      · rename_i hstatus
        -- a published Gold run includes every version that the scope waits for
        exact fun key _ ↦ included_of_reconcile h.queue rfl hrun hafter hstatus key.1
      · trivial
    · cases hstep
  | complete =>
    rw [UnifiedLakehouse.step] at hstep
    split at hstep
    · rename_i keys hw
      rw [hw] at hholder
      obtain ⟨queue, hqueue, rfl⟩ := Option.map_eq_some_iff.1 hstep
      exact ⟨h.queue.complete hholder hqueue _, trivial⟩
    · cases hstep
  | beginBatch =>
    obtain ⟨-, hstep⟩ := Option.ite_none_right_eq_some.1 hstep
    obtain rfl := Option.some.inj hstep
    exact ⟨h.queue.withHolder _, trivial⟩
  | batch action =>
    rw [UnifiedLakehouse.step] at hstep
    split at hstep
    · obtain ⟨after, hafter, rfl⟩ := Option.map_eq_some_iff.1 hstep
      exact HolderSound.lakehouse h hfull hafter
    · cases hstep
  | endBatch =>
    rw [UnifiedLakehouse.step] at hstep
    split at hstep
    · obtain rfl := Option.some.inj hstep
      exact ⟨h.queue.withHolder _, trivial⟩
    · cases hstep
  | maintain t c =>
    obtain ⟨-, hstep⟩ := Option.ite_none_right_eq_some.1 hstep
    obtain ⟨after, hafter, rfl⟩ := Option.map_eq_some_iff.1 hstep
    exact HolderSound.lakehouse h rfl hafter
  | crash =>
    obtain rfl := Option.some.inj hstep
    exact ⟨h.queue.withHolder _, trivial⟩

/-- **Every reachable lakehouse is sound.** -/
theorem sound_of_run {actions : List (UnifiedAction W)}
    (hfull : ∀ action ∈ actions, action.isFullRebuild = false)
    (hrun : Runs.run (fun w a ↦ UnifiedLakehouse.step fns hash maxOrderIds tables w a)
      empty actions = some world) : world.Sound tables :=
  Runs.run_invariant (Sound tables) (fun _ _ _ hw hok hstep ↦ hw.step hok hstep) sound_empty
    (Runs.along_of_forall (fun a ha _ ↦ hfull a ha) _) hrun

/-- **The queue is sound in every order of actions**: a micro-batch that has returned has its
request in the queue, the active release includes every request with a published row, and what a
cycle completes is included before it completes it. -/
theorem queuePublication_sound {actions : List (UnifiedAction W)}
    (hfull : ∀ action ∈ actions, action.isFullRebuild = false)
    (hrun : Runs.run (fun w a ↦ UnifiedLakehouse.step fns hash maxOrderIds tables w a)
      empty actions = some world) :
    (∀ requestId ∈ world.returned, ∃ row ∈ world.queueRows, row.requestId = requestId) ∧
    (∀ row ∈ world.queueRows, row.status = .published → world.Included row.requestId) ∧
    ∀ world', world.step fns hash maxOrderIds tables .complete = some world' →
      ∀ row ∈ world'.queueRows, row ∈ world.queueRows ∨ world.Included row.requestId := by
  have hsound := sound_of_run hfull hrun
  refine ⟨hsound.queue.returned, hsound.queue.published, fun world' hstep row hrow ↦ ?_⟩
  rw [UnifiedLakehouse.step] at hstep
  split at hstep
  · rename_i keys hw
    obtain ⟨queue, hqueue, rfl⟩ := Option.map_eq_some_iff.1 hstep
    have hholder := hsound.holder
    rw [hw] at hholder
    rcases mem_of_complete hqueue hrow with ⟨hkey, -⟩ | hold
    · exact Or.inr (hholder row.key hkey)
    · exact Or.inl hold
  · cases hstep

end Sound

end UnifiedLakehouse

/-! ### A retried micro-batch -/

/-- A micro-batch with a row of `shops`. -/
def shopBatch : BatchKey := ⟨['q'], ['v', '1'], 3⟩

/-- After the first release the micro-batch is killed between its merge and its request; its retry
commits nothing and enqueues, and a cycle publishes. -/
def retriedBatch : List (UnifiedAction Bool) :=
  .beginBatch :: firstActions.map .batch ++
  [.endBatch, .beginMicroBatch shopBatch, .mergeTable .shops (renamedShop 'a' 'b' .cdcToSilver),
    .crash, .beginMicroBatch shopBatch, .mergeTable .shops (renamedShop 'a' 'b' .cdcToSilver),
    .enqueue fun _ ↦ [], .returnBatch, .beginCycle,
    .scan [⟨shopBatch, .metadataOnly, none, false, .pending⟩], .reconcile (smallStage none),
    .complete]

/-- The retried micro-batch has its request published. -/
theorem queuePublication_sound_retriedBatch : ∃ world,
    Runs.run (fun w a ↦ UnifiedLakehouse.step .plain smallHash 5000 (fun _ ↦ [.shops]) w a)
      UnifiedLakehouse.empty retriedBatch = some world ∧
    ∃ row ∈ world.queueRows, row.status = .published ∧ world.Included row.requestId := by
  have hany : (Runs.run
      (fun w a ↦ UnifiedLakehouse.step .plain smallHash 5000 (fun _ ↦ [.shops]) w a)
      UnifiedLakehouse.empty retriedBatch).any (fun world ↦
    world.queueRows.any fun row ↦ row.status = .published) = true := by
    decide +kernel
  obtain ⟨world, hrun, hrows⟩ := (Option.any_eq_true _ _).1 hany
  obtain ⟨row, hrow, hstatus⟩ := List.any_eq_true.1 hrows
  have hsound := UnifiedLakehouse.queuePublication_sound (by decide) hrun
  exact ⟨world, hrun, row, hrow, of_decide_eq_true hstatus,
    hsound.2.1 row hrow (of_decide_eq_true hstatus)⟩

end LakehousePipeline
